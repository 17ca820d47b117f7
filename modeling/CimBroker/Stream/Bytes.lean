/-!
# Little-endian words

Every integer of a record and of a stream is a little-endian word of four
or eight bytes. `le k n` writes the low `k` bytes of `n`, and `readLE` reads
them back.
-/

namespace CimBroker.Stream

/-- The low `k` bytes of `n`, least significant first. -/
def le : Nat → Nat → List UInt8
  | 0, _ => []
  | k + 1, n => n.toUInt8 :: le k (n / 256)

/-- The number whose little-endian bytes are `bs`. -/
def readLE : List UInt8 → Nat
  | [] => 0
  | b :: bs => b.toNat + 256 * readLE bs

@[simp] theorem length_le (k n : Nat) : (le k n).length = k := by
  induction k generalizing n <;> simp [le, *]

end CimBroker.Stream

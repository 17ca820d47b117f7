import CimBroker.Stream.Bytes
import CimBroker.Stream.Error

/-!
# Wire primitives

A stream is a sequence of little-endian `u32` and `u64` words and *blocks*:
a `u64` byte length followed by that many bytes.

The reader keeps the bytes not yet read and its position. Every read checks
that enough bytes are left, and otherwise fails with `truncated`, reporting
its position, the bytes it needed and the bytes that were left. A block's
shortfall is reported at the position after its length word.
-/

namespace CimBroker.Stream

/-- A `u32` word. -/
def putU32 (n : Nat) : List UInt8 := le 4 n

/-- A `u64` word. -/
def putU64 (n : Nat) : List UInt8 := le 8 n

/-- A block: the length, then the bytes. -/
def putBlock (bs : List UInt8) : List UInt8 := putU64 bs.length ++ bs

/-- The unread bytes of a stream and the position of the first of them. -/
structure Reader where
  rest : List UInt8
  pos : Nat
deriving Repr

namespace Reader

/-- A reader at the start of `bs`. -/
def start (bs : List UInt8) : Reader := ⟨bs, 0⟩

/-- Number of bytes left. -/
def remaining (r : Reader) : Nat := r.rest.length

/-- The next `n` bytes. -/
def take (r : Reader) (n : Nat) : Except StreamError (List UInt8 × Reader) :=
  let chunk := r.rest.take n
  if chunk.length < n then .error (.truncated r.pos n r.rest.length)
  else .ok (chunk, ⟨r.rest.drop n, r.pos + n⟩)

/-- The next `u32` word. -/
def u32 (r : Reader) : Except StreamError (Nat × Reader) := do
  let (bs, r) ← r.take 4
  return (readLE bs, r)

/-- The next `u64` word. -/
def u64 (r : Reader) : Except StreamError (Nat × Reader) := do
  let (bs, r) ← r.take 8
  return (readLE bs, r)

/-- The next block's bytes. -/
def block (r : Reader) : Except StreamError (List UInt8 × Reader) := do
  let (n, r) ← r.u64
  r.take n

end Reader

end CimBroker.Stream

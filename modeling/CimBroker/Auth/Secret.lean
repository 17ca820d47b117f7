/-!
# Secrets and nonces

The server names each secret file with a random 64-bit nonce and fills it
with 32 random letters and digits. Here the randomness is a seeded
generator (SplitMix64), so a run is a function of its seed; nothing that
uses a secret depends on its value beyond equality.
-/

namespace CimBroker.Auth

/-- The state of the generator. -/
structure Entropy where
  state : UInt64
deriving Repr

namespace Entropy

/-- The next 64-bit value and the advanced generator. -/
def next (e : Entropy) : UInt64 × Entropy :=
  let s := e.state + 0x9E3779B97F4A7C15
  let z := (s ^^^ (s >>> 30)) * 0xBF58476D1CE4E5B9
  let z := (z ^^^ (z >>> 27)) * 0x94D049BB133111EB
  (z ^^^ (z >>> 31), ⟨s⟩)

/-- Letters and digits, the alphabet of secrets. -/
def alphanumeric : List Char :=
  "ABCDEFGHIJKLMNOPQRSTUVWXYZabcdefghijklmnopqrstuvwxyz0123456789".toList

/-- `n` random letters and digits. -/
def chars : Nat → Entropy → List Char × Entropy
  | 0, e => ([], e)
  | n + 1, e =>
    let (v, e) := e.next
    let (rest, e) := chars n e
    (alphanumeric.getD (v.toNat % 62) 'A' :: rest, e)

/-- A secret of 32 letters and digits. -/
def secret (e : Entropy) : String × Entropy :=
  let (cs, e) := chars 32 e
  (String.ofList cs, e)

/-- A 64-bit nonce. -/
def nonce (e : Entropy) : Nat × Entropy :=
  let (v, e) := e.next
  (v.toNat, e)

end Entropy

/-- Sixteen lowercase hexadecimal digits of a 64-bit value, zeros in front. -/
def hex16 (n : Nat) : String :=
  let ds := Nat.toDigits 16 n
  String.ofList (List.replicate (16 - ds.length) '0' ++ ds)

end CimBroker.Auth

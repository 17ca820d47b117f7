/-!
# IPv4 addresses in dotted-decimal text

An IPv4 address is written as four octets in decimal, separated by dots.
Each octet has one to three digits, is at most 255, and has no leading zero
unless it is `0` itself. After the fourth octet the text must end or go on
with a colon (the start of a port), which the reader leaves unread.

`scan` reports how many characters it read; every character it reads is
ASCII, so that count is also the number of bytes.
-/

namespace CimBroker.Address

/-- An IPv4 address, as its four octets in network order. -/
structure Ipv4 where
  o1 : UInt8
  o2 : UInt8
  o3 : UInt8
  o4 : UInt8
deriving DecidableEq, Repr

namespace Ipv4

/-- The octets in network order. -/
def toList (a : Ipv4) : List UInt8 := [a.o1, a.o2, a.o3, a.o4]

/-- Dotted-decimal text of the address. -/
def toText (a : Ipv4) : String :=
  s!"{a.o1.toNat}.{a.o2.toNat}.{a.o3.toNat}.{a.o4.toNat}"

/-- Decimal value of a list of ASCII digits. -/
def digitsValue (ds : List Char) : Nat :=
  ds.foldl (fun v c => 10 * v + (c.toNat - '0'.toNat)) 0

/-- Reads one octet at the front of `cs`: one to three digits, at most 255,
and no leading zero on a number of two or three digits. -/
def scanOctet (cs : List Char) : Option (UInt8 × List Char) :=
  let ds := (cs.take 3).takeWhile Char.isDigit
  if ds.isEmpty then none
  else if digitsValue ds > 255 then none
  else if ds.length > 1 ∧ ds.head? = some '0' then none
  else some ((digitsValue ds).toUInt8, cs.drop ds.length)

/-- The text after a dot at the front of `cs`. -/
def skipDot : List Char → Option (List Char)
  | '.' :: rest => some rest
  | _ => none

/-- Reads an address at the front of `cs`, returning it and the number of
characters read. The address must be followed by the end of the text or by a
colon. -/
def scan (cs : List Char) : Option (Ipv4 × Nat) := do
  let (a, r) ← scanOctet cs
  let r ← skipDot r
  let (b, r) ← scanOctet r
  let r ← skipDot r
  let (c, r) ← scanOctet r
  let r ← skipDot r
  let (d, r) ← scanOctet r
  match r with
  | [] => some (⟨a, b, c, d⟩, cs.length - r.length)
  | ':' :: _ => some (⟨a, b, c, d⟩, cs.length - r.length)
  | _ => none

/-- The address at the front of `s`, allowing a `:` suffix after it. -/
def parse? (s : String) : Option Ipv4 := (scan s.toList).map Prod.fst

end Ipv4

end CimBroker.Address

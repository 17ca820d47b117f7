import CimBroker.Address.Ipv4

/-!
# IPv6 addresses in text

Reading follows the classic presentation-to-network conversion:

* up to eight groups of one to four hexadecimal digits, separated by `:`;
* one `::` may stand for a run of zero groups (a leading `:` must be the
  start of `::`, and a single `:` may not end the text);
* the last 32 bits may be written as a dotted IPv4 address, which must then
  end the text;
* the groups must fill exactly sixteen bytes, counting the run that `::`
  stands for, and `::` must stand for at least one group.

Writing is the canonical short form: lowercase digits without leading zeros,
the first longest run of two or more zero groups written as `::`, and the
last 32 bits in dotted form when the address is IPv4-compatible (six zero
groups first) or IPv4-mapped (five zero groups, then `ffff`).
-/

namespace CimBroker.Address

/-- An IPv6 address, as its sixteen bytes in network order. -/
structure Ipv6 where
  bytes : List UInt8
  length_bytes : bytes.length = 16
deriving DecidableEq

namespace Ipv6

/-! ## Reading -/

/-- Value of a hexadecimal digit. -/
def hexValue (c : Char) : Option Nat :=
  if '0' ≤ c ∧ c ≤ '9' then some (c.toNat - '0'.toNat)
  else if 'a' ≤ c ∧ c ≤ 'f' then some (c.toNat - 'a'.toNat + 10)
  else if 'A' ≤ c ∧ c ≤ 'F' then some (c.toNat - 'A'.toNat + 10)
  else none

/-- What the reader knows between two characters. -/
structure Reader where
  /-- Bytes of the groups completed so far. -/
  out : List UInt8
  /-- Byte offset at which `::` stood, if it did. -/
  gap : Option Nat
  /-- Value of the group being read. -/
  group : Nat
  /-- Number of digits of the group being read. -/
  digits : Nat
  /-- The text from the start of the group being read. -/
  token : List Char

/-- The two bytes of a group. -/
def groupBytes (v : Nat) : List UInt8 := [(v / 256).toUInt8, v.toUInt8]

/-- Reads the characters `cs`, the text after them being empty. Stops early,
with the final state, after a dotted IPv4 tail. -/
def readChars (st : Reader) : List Char → Option Reader
  | [] => some st
  | ch :: rest =>
    match hexValue ch with
    | some d =>
      if st.digits + 1 > 4 then none
      else readChars { st with group := st.group * 16 + d, digits := st.digits + 1 } rest
    | none =>
      if ch = ':' then
        if st.digits = 0 then
          if st.gap.isSome then none
          else readChars { st with gap := some st.out.length, token := rest } rest
        else if rest.isEmpty then none
        else if st.out.length + 2 > 16 then none
        else
          readChars
            { st with out := st.out ++ groupBytes st.group, group := 0, digits := 0, token := rest }
            rest
      else if ch = '.' ∧ st.out.length + 4 ≤ 16 then
        match Ipv4.scan st.token with
        | some (v4, used) =>
          if used = st.token.length then some { st with out := st.out ++ v4.toList, digits := 0 }
          else none
        | none => none
      else none

/-- The sixteen bytes once reading ended: the pending group stored, and the
zeros that `::` stands for inserted at its place. -/
def finish (st : Reader) : Option (List UInt8) := do
  let out ←
    if st.digits = 0 then some st.out
    else if st.out.length + 2 > 16 then none
    else some (st.out ++ groupBytes st.group)
  match st.gap with
  | some at_ =>
    if out.length = 16 then none
    else some (out.take at_ ++ List.replicate (16 - out.length) 0 ++ out.drop at_)
  | none => if out.length = 16 then some out else none

/-- Bytes of the address written in `cs`. -/
def readBytes (cs : List Char) : Option (List UInt8) :=
  let start : Option (List Char) :=
    match cs with
    | ':' :: ':' :: _ => some cs.tail
    | ':' :: _ => none
    | _ => some cs
  match start with
  | none => none
  | some text => readChars ⟨[], none, 0, 0, text⟩ text >>= finish

/-- The address written in `s`, if `s` is one. -/
def parse? (s : String) : Option Ipv6 :=
  match readBytes s.toList with
  | none => none
  | some bytes => if hl : bytes.length = 16 then some ⟨bytes, hl⟩ else none

/-! ## Writing -/

/-- The eight sixteen-bit groups. -/
def words (a : Ipv6) : List Nat :=
  (List.range 8).map fun i => (a.bytes.getD (2 * i) 0).toNat * 256 + (a.bytes.getD (2 * i + 1) 0).toNat

/-- Runs of zeros in `ws` from position `i` on, as `(start, length)`, with
`cur` the run in progress. -/
def zeroRuns : List Nat → Nat → Option (Nat × Nat) → List (Nat × Nat)
  | [], _, cur => cur.toList
  | w :: ws, i, cur =>
    if w = 0 then
      zeroRuns ws (i + 1) (some (match cur with | some (b, l) => (b, l + 1) | none => (i, 1)))
    else cur.toList ++ zeroRuns ws (i + 1) none

/-- The first longest run of zero groups, if it has at least two groups. -/
def longestZeroRun (ws : List Nat) : Option (Nat × Nat) :=
  let best := (zeroRuns ws 0 none).foldl
    (fun best run => match best with
      | none => some run
      | some b => if run.2 > b.2 then some run else some b) none
  best.filter (fun r => r.2 ≥ 2)

/-- A group in lowercase hexadecimal without leading zeros. -/
def groupText (w : Nat) : String := String.ofList (Nat.toDigits 16 w)

/-- The last four bytes as dotted decimal. -/
def tailText (a : Ipv6) : String :=
  let b := fun i => (a.bytes.getD i 0).toNat
  s!"{b 12}.{b 13}.{b 14}.{b 15}"

/-- Canonical text of the address. -/
def toText (a : Ipv6) : String :=
  let ws := a.words
  match longestZeroRun ws with
  | none => ":".intercalate (ws.map groupText)
  | some (b, l) =>
    if b = 0 ∧ l = 6 then "::" ++ a.tailText
    else if b = 0 ∧ l = 5 ∧ ws.getD 5 0 = 0xffff then "::ffff:" ++ a.tailText
    else
      ":".intercalate ((ws.take b).map groupText) ++ ":" ++
        String.join ((ws.drop (b + l)).map (fun w => ":" ++ groupText w)) ++
        (if b + l = 8 then ":" else "")

end Ipv6

end CimBroker.Address

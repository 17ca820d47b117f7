/-!
# Dates and times in TOML documents

A TOML date-time is a date, a time of day, or both, the last optionally
with an offset from UTC. Reading checks every field's range: the month, the
day against the month's length in its year, hours to 23, minutes to 59 and
seconds to 60 (a leap second). A fraction of a second keeps at most nine
digits; further digits are cut off, not rounded.

Writing gives the canonical text: `YYYY-MM-DD`, then `HH:MM:SS` with the
fraction's trailing zeros dropped, a `T` between date and time whatever
separator the document used, and the offset as `Z` or `±HH:MM`. An offset
of zero written with a minus sign comes back with a plus.
-/

namespace CimBroker.Toml

/-- A calendar date. -/
structure Date where
  year : Nat
  month : Nat
  day : Nat
deriving DecidableEq, Repr

/-- A time of day. -/
structure Time where
  hour : Nat
  minute : Nat
  second : Nat
  /-- The fraction of the second, in nanoseconds. -/
  nanos : Nat
deriving DecidableEq, Repr

/-- An offset from UTC. -/
inductive Offset where
  /-- Written `Z`. -/
  | utc
  /-- Minutes east of UTC. -/
  | minutes (m : Int)
deriving DecidableEq, Repr

/-- A date, a time, or both with an optional offset. -/
structure Datetime where
  date : Option Date
  time : Option Time
  offset : Option Offset
deriving DecidableEq, Repr

/-! ## Reading -/

/-- The value of exactly `n` decimal digits at the front of `cs`. -/
def fixedDigits (n : Nat) (cs : List Char) : Option (Nat × List Char) :=
  let ds := cs.take n
  if ds.length = n ∧ ds.all Char.isDigit then
    some (ds.foldl (fun acc c => acc * 10 + (c.toNat - '0'.toNat)) 0, cs.drop n)
  else none

/-- `cs` after the character `c`, if it starts with it. -/
def expect (c : Char) : List Char → Option (List Char)
  | d :: r => if d = c then some r else none
  | [] => none

/-- Days of a month of a year. -/
def daysIn (year month : Nat) : Nat :=
  if month = 2 then (if year % 4 = 0 ∧ (year % 100 ≠ 0 ∨ year % 400 = 0) then 29 else 28)
  else if month = 4 ∨ month = 6 ∨ month = 9 ∨ month = 11 then 30 else 31

/-- A date `YYYY-MM-DD` at the front of `cs`. -/
def Date.scan (cs : List Char) : Option (Date × List Char) := do
  let (year, cs) ← fixedDigits 4 cs
  let cs ← expect '-' cs
  let (month, cs) ← fixedDigits 2 cs
  let cs ← expect '-' cs
  let (day, cs) ← fixedDigits 2 cs
  if 1 ≤ month ∧ month ≤ 12 ∧ 1 ≤ day ∧ day ≤ daysIn year month then some (⟨year, month, day⟩, cs)
  else none

/-- The nanoseconds of a fraction's digits: the first nine count, the others
are cut off. -/
def nanosOf (digits : List Char) : Nat :=
  let kept := digits.take 9
  (kept.foldl (fun acc c => acc * 10 + (c.toNat - '0'.toNat)) 0) * Nat.pow 10 (9 - kept.length)

/-- A time `HH:MM:SS`, with an optional fraction, at the front of `cs`. -/
def Time.scan (cs : List Char) : Option (Time × List Char) := do
  let (hour, cs) ← fixedDigits 2 cs
  let cs ← expect ':' cs
  let (minute, cs) ← fixedDigits 2 cs
  let cs ← expect ':' cs
  let (second, cs) ← fixedDigits 2 cs
  let (nanos, cs) ← match cs with
    | '.' :: r =>
      let ds := r.takeWhile Char.isDigit
      if ds.isEmpty then none else some (nanosOf ds, r.dropWhile Char.isDigit)
    | r => some (0, r)
  if hour ≤ 23 ∧ minute ≤ 59 ∧ second ≤ 60 then some (⟨hour, minute, second, nanos⟩, cs)
  else none

/-- An offset `Z` or `±HH:MM` at the front of `cs`. -/
def Offset.scan (cs : List Char) : Option (Offset × List Char) :=
  match cs with
  | 'Z' :: r | 'z' :: r => some (.utc, r)
  | sign :: r =>
    if sign = '+' ∨ sign = '-' then do
      let (h, r) ← fixedDigits 2 r
      let r ← expect ':' r
      let (m, r) ← fixedDigits 2 r
      let total : Int := h * 60 + m
      if h ≤ 23 ∧ m ≤ 59 then some (.minutes (if sign = '-' then -total else total), r) else none
    else none
  | [] => none

/-- A whole token that is a date, a time, or a date and a time (after `T`,
`t` or a space) with an optional offset. -/
def Datetime.ofToken (tok : List Char) : Option Datetime :=
  match Date.scan tok with
  | some (d, []) => some ⟨some d, none, none⟩
  | some (d, sep :: r) =>
    if sep = 'T' ∨ sep = 't' ∨ sep = ' ' then
      match Time.scan r with
      | some (t, []) => some ⟨some d, some t, none⟩
      | some (t, r) =>
        match Offset.scan r with
        | some (o, []) => some ⟨some d, some t, some o⟩
        | _ => none
      | none => none
    else none
  | none =>
    match Time.scan tok with
    | some (t, []) => some ⟨none, some t, none⟩
    | _ => none

/-! ## Writing -/

/-- `n` in decimal, with zeros in front up to `width` digits. -/
def padded (width n : Nat) : String :=
  let s := toString n
  String.ofList (List.replicate (width - s.length) '0') ++ s

/-- `YYYY-MM-DD`. -/
def Date.render (d : Date) : String :=
  padded 4 d.year ++ "-" ++ padded 2 d.month ++ "-" ++ padded 2 d.day

/-- `HH:MM:SS`, and the fraction without trailing zeros when it is not zero. -/
def Time.render (t : Time) : String :=
  let whole := padded 2 t.hour ++ ":" ++ padded 2 t.minute ++ ":" ++ padded 2 t.second
  if t.nanos = 0 then whole
  else whole ++ "." ++ String.ofList ((padded 9 t.nanos).toList.reverse.dropWhile (· = '0')).reverse

/-- `Z`, or the sign (a plus for zero), hours and minutes. -/
def Offset.render : Offset → String
  | .utc => "Z"
  | .minutes m =>
    let sign := if m < 0 then "-" else "+"
    sign ++ padded 2 (m.natAbs / 60) ++ ":" ++ padded 2 (m.natAbs % 60)

/-- The canonical text of a date-time. -/
def Datetime.render (dt : Datetime) : String :=
  let date := (dt.date.map Date.render).getD ""
  let time := match dt.time with
    | some t => (if dt.date.isSome then "T" else "") ++ t.render
    | none => ""
  date ++ time ++ (dt.offset.map Offset.render).getD ""

end CimBroker.Toml

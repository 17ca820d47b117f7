import CimBroker.Toml.Value
import CimBroker.Toml.Lexical

/-!
# Scalars in TOML documents

Booleans, integers, floats, dates and times, each read from one token.

* An integer is decimal with an optional sign and no leading zero, or
  hexadecimal, octal or binary after `0x`, `0o`, `0b`; single underscores
  may stand between digits, and the value must fit in 64 signed bits.
* A float has a decimal integer part and a fraction, an exponent or both
  (digits of fraction and exponent may start with zeros), or is `inf` or
  `nan` with an optional sign. A finite float whose value is too large for a
  double is refused when it is positive and accepted when it is negative:
  reading it would give positive infinity, which the format forbids from a
  decimal, while negative infinity passes. The bound is decided exactly, on
  the decimal's digits, without a floating-point computation.
* A date-time is read by `Datetime.ofToken`; a date followed by a space and
  a time is one token.
-/

namespace CimBroker.Toml

/-! ## Integers -/

/-- The value of digit `c` in base `radix`. -/
def digitOf (radix : Nat) (c : Char) : Option Nat :=
  (hexDigit? c).bind fun d => if d < radix then some d else none

/-- Digits of base `radix`, with single underscores between digits, read on
from `acc`; `lastDigit` says that a digit came just before. -/
def digitsFrom (radix : Nat) : List Char → Bool → Nat → Option Nat
  | [], lastDigit, acc => if lastDigit then some acc else none
  | c :: rest, lastDigit, acc =>
    if c = '_' then (if lastDigit then digitsFrom radix rest false acc else none)
    else (digitOf radix c).bind fun d => digitsFrom radix rest true (acc * radix + d)

/-- The value of digits of base `radix` with single underscores between them. -/
def digitsValue (radix : Nat) (cs : List Char) : Option Nat := digitsFrom radix cs false 0

/-- A decimal integer part: no leading zero unless it is `0`. -/
def decimalPart (cs : List Char) : Option Nat :=
  match cs with
  | '0' :: _ :: _ => none
  | _ => digitsValue 10 cs

/-- An integer, if the token is one and fits in 64 signed bits. -/
def integer? (tok : List Char) : Option Int :=
  let bounded := fun (n : Int) => if -9223372036854775808 ≤ n ∧ n ≤ 9223372036854775807 then some n else none
  match tok with
  | '0' :: 'x' :: r => (digitsValue 16 r).bind (bounded ∘ Int.ofNat)
  | '0' :: 'o' :: r => (digitsValue 8 r).bind (bounded ∘ Int.ofNat)
  | '0' :: 'b' :: r => (digitsValue 2 r).bind (bounded ∘ Int.ofNat)
  | '+' :: r => (decimalPart r).bind (bounded ∘ Int.ofNat)
  | '-' :: r => (decimalPart r).bind fun n => bounded (-(Int.ofNat n))
  | r => (decimalPart r).bind (bounded ∘ Int.ofNat)

/-! ## Floats -/

/-- A finite float as written: its sign, all its digits read as one number,
how many of them follow the point, and the exponent. Its value is
`digits * 10 ^ (exponent - fractionDigits)`, negated when `negative`. -/
structure Decimal where
  negative : Bool
  digits : Nat
  fractionDigits : Nat
  exponent : Int
deriving DecidableEq, Repr

/-- A digit or an underscore. -/
def isDigitOrUnderscore (c : Char) : Bool := c.isDigit || c = '_'

/-- An exponent after its `e`: an optional sign and digits. -/
def exponentValue (cs : List Char) : Option Int :=
  match cs with
  | '+' :: d => (digitsValue 10 d).map Int.ofNat
  | '-' :: d => (digitsValue 10 d).map fun n => -(Int.ofNat n)
  | d => (digitsValue 10 d).map Int.ofNat

/-- A finite float token without its sign. -/
def unsignedDecimal? (negative : Bool) (cs : List Char) : Option Decimal := do
  let whole ← decimalPart (cs.takeWhile isDigitOrUnderscore)
  match cs.dropWhile isDigitOrUnderscore with
  | '.' :: more =>
    let fracText := more.takeWhile isDigitOrUnderscore
    let frac ← digitsValue 10 fracText
    let n := (fracText.filter Char.isDigit).length
    let exponent ← match more.dropWhile isDigitOrUnderscore with
      | [] => some 0
      | 'e' :: e | 'E' :: e => exponentValue e
      | _ => none
    some ⟨negative, whole * Nat.pow 10 n + frac, n, exponent⟩
  | 'e' :: e | 'E' :: e => do
    let exponent ← exponentValue e
    some ⟨negative, whole, 0, exponent⟩
  | _ => none

/-- A finite float token. -/
def Decimal.ofToken (tok : List Char) : Option Decimal :=
  match tok with
  | '+' :: r => unsignedDecimal? false r
  | '-' :: r => unsignedDecimal? true r
  | r => unsignedDecimal? false r

/-- The number of decimal digits of `n`. -/
def decimalLength (n : Nat) : Nat := (Nat.toDigits 10 n).length

/-- Whether `m * 10 ^ e ≥ t`, for positive `m` and `t`: when the two
numbers' digit counts differ the answer is known without computing
`10 ^ e`, which may be huge; otherwise both sides are compared exactly. -/
def scaledAtLeast (m : Nat) (e : Int) (t : Nat) : Bool :=
  let size := (decimalLength m : Int) + e
  let tSize := (decimalLength t : Int)
  if size > tSize then true
  else if size < tSize then false
  else if 0 ≤ e then m * Nat.pow 10 e.toNat ≥ t
  else m ≥ t * Nat.pow 10 (-e).toNat

/-- The least positive number that reads as infinity: the midpoint between
the largest finite double, `(2^53 - 1) * 2^971`, and `2^1024`, to which a
tie rounds because its significand is even. -/
def infinityBound : Nat := Nat.pow 2 970 * (Nat.pow 2 54 - 1)

/-- Whether a float reads as positive infinity. -/
def Decimal.overflows (d : Decimal) : Bool :=
  !d.negative && d.digits != 0 &&
    scaledAtLeast d.digits (d.exponent - d.fractionDigits) infinityBound

/-- Whether the token is a float the format accepts. -/
def isFloat (tok : List Char) : Bool :=
  let unsigned := match tok with
    | '+' :: r | '-' :: r => r
    | r => r
  if unsigned = "inf".toList ∨ unsigned = "nan".toList then true
  else match Decimal.ofToken tok with
    | some d => !d.overflows
    | none => false

/-! ## Tokens -/

/-- Whether `c` ends a scalar token. -/
def endsToken (c : Char) : Bool :=
  isBlank c || c = '\n' || c = '\r' || c = ',' || c = ']' || c = '}' || c = '#'

/-- The scalar token at the front of `cs`: a date followed by a space and
a time counts as one token. -/
def token (cs : List Char) : List Char × List Char :=
  let tok := cs.takeWhile (! endsToken ·)
  let rest := cs.dropWhile (! endsToken ·)
  match rest with
  | ' ' :: more =>
    let next := more.takeWhile (! endsToken ·)
    match Date.scan tok, Time.scan next with
    | some (_, []), some _ => (tok ++ ' ' :: next, more.dropWhile (! endsToken ·))
    | _, _ => (tok, rest)
  | _ => (tok, rest)

/-- A scalar that is no string: boolean, number, date or time. -/
def scalar (cs : List Char) : Option (Value × List Char) :=
  let (tok, rest) := token cs
  if tok = "true".toList then some (.bool true, rest)
  else if tok = "false".toList then some (.bool false, rest)
  else match integer? tok with
    | some n => some (.int n, rest)
    | none =>
      if isFloat tok then some (.float, rest)
      else (Datetime.ofToken tok).map fun d => (.datetime d, rest)

end CimBroker.Toml

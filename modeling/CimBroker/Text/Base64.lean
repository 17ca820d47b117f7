/-!
# Base64 with padding

The standard alphabet (`A`–`Z`, `a`–`z`, `0`–`9`, `+`, `/`), three bytes to
four symbols, and `=` padding to a multiple of four symbols.

Reading is strict: the text must be exactly what writing would produce for
some byte string. Padding must be present and only at the end, and the bits
that a short last group leaves over must be zero.
-/

namespace CimBroker.Text.Base64

/-- The sixty-four symbols, in the order of their values. -/
def alphabet : List Char :=
  "ABCDEFGHIJKLMNOPQRSTUVWXYZabcdefghijklmnopqrstuvwxyz0123456789+/".toList

/-- The symbol for a six-bit value. -/
def symbol (n : Nat) : Char := alphabet.getD n 'A'

/-- The six-bit value of a symbol, if it is one. -/
def symbolValue (c : Char) : Option Nat :=
  if 'A' ≤ c ∧ c ≤ 'Z' then some (c.toNat - 'A'.toNat)
  else if 'a' ≤ c ∧ c ≤ 'z' then some (c.toNat - 'a'.toNat + 26)
  else if '0' ≤ c ∧ c ≤ '9' then some (c.toNat - '0'.toNat + 52)
  else if c = '+' then some 62
  else if c = '/' then some 63
  else none

/-- Symbols for a byte string: four per three bytes, a short last group padded with `=`. -/
def encodeChars : List UInt8 → List Char
  | a :: b :: c :: rest =>
    let n := a.toNat * 65536 + b.toNat * 256 + c.toNat
    symbol (n / 262144) :: symbol (n / 4096 % 64) :: symbol (n / 64 % 64) :: symbol (n % 64) ::
      encodeChars rest
  | [a, b] =>
    let n := a.toNat * 256 + b.toNat
    [symbol (n / 1024), symbol (n / 16 % 64), symbol (n % 16 * 4), '=']
  | [a] => [symbol (a.toNat / 4), symbol (a.toNat % 4 * 16), '=', '=']
  | [] => []

/-- The padded base64 text of a byte string. -/
def encode (bytes : List UInt8) : String := String.ofList (encodeChars bytes)

/-- Bytes of a padded base64 text, or `none` when the text is not exactly the
writing of any byte string. -/
def decodeChars : List Char → Option (List UInt8)
  | [] => some []
  | [c1, c2, '=', '='] => do
    let v1 ← symbolValue c1
    let v2 ← symbolValue c2
    if v2 % 16 = 0 then some [(v1 * 4 + v2 / 16).toUInt8] else none
  | [c1, c2, c3, '='] => do
    let v1 ← symbolValue c1
    let v2 ← symbolValue c2
    let v3 ← symbolValue c3
    if v3 % 4 = 0 then
      some [(v1 * 4 + v2 / 16).toUInt8, (v2 % 16 * 16 + v3 / 4).toUInt8]
    else none
  | c1 :: c2 :: c3 :: c4 :: rest => do
    let v1 ← symbolValue c1
    let v2 ← symbolValue c2
    let v3 ← symbolValue c3
    let v4 ← symbolValue c4
    let tail ← decodeChars rest
    some ((v1 * 4 + v2 / 16).toUInt8 :: (v2 % 16 * 16 + v3 / 4).toUInt8 ::
      (v3 % 4 * 64 + v4).toUInt8 :: tail)
  | _ => none

/-- Bytes of a padded base64 text, or `none`. -/
def decode (text : String) : Option (List UInt8) := decodeChars text.toList

end CimBroker.Text.Base64

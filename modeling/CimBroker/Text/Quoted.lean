import CimBroker.Text.Printable

/-!
# Quoted text

Error messages show a piece of input between double quotes, escaped so that
the reader can see exactly which characters it held:

* the quote and the backslash get a backslash;
* NUL, tab, carriage return and line feed are written `\0`, `\t`, `\r`, `\n`;
* the characters of `CimBroker.Text.Printable` are written `\u{h}`, with `h`
  the code point in lowercase hexadecimal without leading zeros;
* every other character, the single quote included, stands as it is.
-/

namespace CimBroker.Text

/-- Lowercase hexadecimal digits of `n`, without leading zeros. -/
def hexDigits (n : Nat) : List Char := Nat.toDigits 16 n

/-- The characters that one character of quoted text is written as. -/
def escapeChar (c : Char) : List Char :=
  if c = '\\' then ['\\', '\\']
  else if c = '"' then ['\\', '"']
  else if c = '\n' then ['\\', 'n']
  else if c = '\r' then ['\\', 'r']
  else if c = '\t' then ['\\', 't']
  else if c = '\x00' then ['\\', '0']
  else if isEscaped c then ['\\', 'u', '\x7b'] ++ hexDigits c.toNat ++ ['\x7d']
  else [c]

/-- `s` between double quotes, each character written by `escapeChar`. -/
def quote (s : String) : String :=
  String.ofList ('"' :: s.toList.flatMap escapeChar ++ ['"'])

end CimBroker.Text

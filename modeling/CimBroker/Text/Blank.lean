/-!
# Blank characters and trimming

Header values are trimmed of blanks at their start, and credential tokens at
both ends. A blank is a character with the Unicode property `White_Space`:
the ASCII tab, line feed, vertical tab, form feed, carriage return and
space, and U+0085, U+00A0, U+1680, U+2000 to U+200A, U+2028, U+2029,
U+202F, U+205F and U+3000.
-/

namespace CimBroker.Text

/-- Whether `c` has the Unicode property `White_Space`. -/
def isBlank (c : Char) : Bool :=
  let n := c.toNat
  (0x09 ≤ n && n ≤ 0x0D) || n == 0x20 || n == 0x85 || n == 0xA0 || n == 0x1680 ||
    (0x2000 ≤ n && n ≤ 0x200A) || n == 0x2028 || n == 0x2029 || n == 0x202F ||
    n == 0x205F || n == 0x3000

/-- `s` without the blanks at its start. -/
def trimStart (s : String) : String := String.ofList (s.toList.dropWhile isBlank)

/-- `s` without the blanks at its end. -/
def trimEnd (s : String) : String :=
  String.ofList (s.toList.reverse.dropWhile isBlank).reverse

/-- `s` without the blanks at either end. -/
def trim (s : String) : String := trimEnd (trimStart s)

end CimBroker.Text

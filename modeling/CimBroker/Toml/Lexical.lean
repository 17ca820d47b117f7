/-!
# Lexical rules of TOML documents

Blanks, line breaks and comments; the four kinds of strings; keys.

A line break is a line feed or a carriage return followed by one; a carriage
return alone is an error everywhere. Control characters other than the tab
may stand in no comment and no string. In a multi-line string a line break
reads as a line feed, and in the basic kind a backslash that ends a line
removes the line break and every blank and line break after it.

Keys are bare (letters, digits, `_`, `-`), or quoted either way, and a
dotted key joins several with `.`, blanks allowed around each part. Nesting
is limited: a dotted key of `maxDepth` parts, like arrays and inline tables
nested `maxDepth` deep, is refused.

Every scanner that loops takes a fuel argument, larger than the text it
may read; it fails, rather than answering, if the fuel runs out.
-/

namespace CimBroker.Toml

/-- The nesting limit of keys and values. -/
def maxDepth : Nat := 80

/-! ## Characters -/

/-- Space or tab. -/
def isBlank (c : Char) : Bool := c = ' ' || c = '\t'

/-- A character of a bare key. -/
def isBareKeyChar (c : Char) : Bool := c.isAlphanum || c = '_' || c = '-'

/-- A control character that strings and comments may not hold. -/
def isControl (c : Char) : Bool := (c.toNat < 0x20 && c ≠ '\t') || c.toNat = 0x7F

/-- `cs` without leading spaces and tabs. -/
def skipBlanks (cs : List Char) : List Char := cs.dropWhile isBlank

/-- The value of a hexadecimal digit. -/
def hexDigit? (c : Char) : Option Nat :=
  if '0' ≤ c ∧ c ≤ '9' then some (c.toNat - '0'.toNat)
  else if 'a' ≤ c ∧ c ≤ 'f' then some (c.toNat - 'a'.toNat + 10)
  else if 'A' ≤ c ∧ c ≤ 'F' then some (c.toNat - 'A'.toNat + 10)
  else none

/-- The value of `n` hexadecimal digits at the front of `cs`. -/
def hexValue (n : Nat) (cs : List Char) : Option (Nat × List Char) :=
  if (cs.take n).length < n then none
  else ((cs.take n).foldlM (fun acc c => (hexDigit? c).map (acc * 16 + ·)) 0).map (·, cs.drop n)

/-- A code point that is a Unicode scalar value. -/
def scalar? (n : Nat) : Option Char :=
  if n < 0xD800 ∨ (0xE000 ≤ n ∧ n < 0x110000) then some (Char.ofNat n) else none

/-! ## Lines -/

/-- The rest after a comment, up to the line end. -/
def skipComment (cs : List Char) : Option (List Char) :=
  match cs with
  | '#' :: rest =>
    let body := rest.takeWhile (fun c => c ≠ '\n' ∧ c ≠ '\r')
    if body.any isControl then none else some (rest.dropWhile (fun c => c ≠ '\n' ∧ c ≠ '\r'))
  | _ => some cs

/-- The rest after a line break, or the empty end of the text. -/
def lineBreak : List Char → Option (List Char)
  | [] => some []
  | '\n' :: rest => some rest
  | '\r' :: '\n' :: rest => some rest
  | _ => none

/-- The rest after blanks, a comment and the line break that end a line. -/
def endLine (cs : List Char) : Option (List Char) :=
  skipComment (skipBlanks cs) >>= lineBreak

/-- `cs` without blanks, line breaks and comments. -/
def skipSpace : Nat → List Char → Option (List Char)
  | 0, _ => none
  | fuel + 1, cs =>
    match skipBlanks cs with
    | '\n' :: rest => skipSpace fuel rest
    | '\r' :: '\n' :: rest => skipSpace fuel rest
    | '#' :: rest => skipComment ('#' :: rest) >>= skipSpace fuel
    | rest => some rest

/-- `cs` without blanks and line breaks; a carriage return alone stays. -/
def skipBlankLines : List Char → List Char
  | ' ' :: rest | '\t' :: rest | '\n' :: rest => skipBlankLines rest
  | '\r' :: '\n' :: rest => skipBlankLines rest
  | cs => cs

/-! ## Strings -/

/-- The character an escape stands for, after its backslash. -/
def escape : List Char → Option (Char × List Char)
  | 'b' :: r => some ('\x08', r)
  | 't' :: r => some ('\t', r)
  | 'n' :: r => some ('\n', r)
  | 'f' :: r => some ('\x0c', r)
  | 'r' :: r => some ('\r', r)
  | '"' :: r => some ('"', r)
  | '\\' :: r => some ('\\', r)
  | 'u' :: r => do let (n, r) ← hexValue 4 r; let c ← scalar? n; some (c, r)
  | 'U' :: r => do let (n, r) ← hexValue 8 r; let c ← scalar? n; some (c, r)
  | _ => none

/-- A basic string after its opening quote; `acc` holds what was read, reversed. -/
def basicString : Nat → List Char → List Char → Option (String × List Char)
  | 0, _, _ => none
  | _ + 1, [], _ => none
  | fuel + 1, c :: rest, acc =>
    if c = '"' then some (String.ofList acc.reverse, rest)
    else if c = '\\' then do
      let (e, rest) ← escape rest
      basicString fuel rest (e :: acc)
    else if isControl c then none
    else basicString fuel rest (c :: acc)

/-- A literal string after its opening quote. -/
def literalString (cs : List Char) : Option (String × List Char) :=
  let body := cs.takeWhile (· ≠ '\'')
  match cs.dropWhile (· ≠ '\'') with
  | '\'' :: rest => if body.any isControl then none else some (String.ofList body, rest)
  | _ => none

/-- The content of a multi-line string ends at three quotes `q`; up to two more
quotes right before them belong to the content. -/
def closeMultiline (q : Char) (acc : List Char) (rest : List Char) : Option (String × List Char) :=
  let extra := (rest.takeWhile (· = q)).length
  if extra > 2 then none
  else some (String.ofList (acc.reverse ++ List.replicate extra q), rest.drop extra)

/-- A multi-line basic string after its three quotes. -/
def multilineBasic : Nat → List Char → List Char → Option (String × List Char)
  | 0, _, _ => none
  | _ + 1, [], _ => none
  | fuel + 1, c :: rest, acc =>
    match c, rest with
    | '"', '"' :: '"' :: more => closeMultiline '"' acc more
    | '\\', more =>
      let afterBlanks := skipBlanks more
      match afterBlanks with
      | '\n' :: _ | '\r' :: '\n' :: _ => multilineBasic fuel (skipBlankLines afterBlanks) acc
      | _ => do
        let (e, more) ← escape more
        multilineBasic fuel more (e :: acc)
    | '\r', '\n' :: more => multilineBasic fuel more ('\n' :: acc)
    | '\n', more => multilineBasic fuel more ('\n' :: acc)
    | c, more => if isControl c then none else multilineBasic fuel more (c :: acc)

/-- A multi-line literal string after its three quotes. -/
def multilineLiteral : Nat → List Char → List Char → Option (String × List Char)
  | 0, _, _ => none
  | _ + 1, [], _ => none
  | fuel + 1, c :: rest, acc =>
    match c, rest with
    | '\'', '\'' :: '\'' :: more => closeMultiline '\'' acc more
    | '\r', '\n' :: more => multilineLiteral fuel more ('\n' :: acc)
    | '\n', more => multilineLiteral fuel more ('\n' :: acc)
    | c, more => if isControl c then none else multilineLiteral fuel more (c :: acc)

/-- The rest of a multi-line string without the line break right after its opening. -/
def dropFirstBreak : List Char → List Char
  | '\n' :: rest => rest
  | '\r' :: '\n' :: rest => rest
  | cs => cs

/-! ## Keys -/

/-- One key: bare, or quoted either way. -/
def simpleKey (cs : List Char) : Option (String × List Char) :=
  match cs with
  | '"' :: rest => basicString (rest.length + 1) rest []
  | '\'' :: rest => literalString rest
  | _ =>
    let k := cs.takeWhile isBareKeyChar
    if k.isEmpty then none else some (String.ofList k, cs.dropWhile isBareKeyChar)

/-- The parts of a dotted key, with no limit on their number. -/
def dottedParts : Nat → List Char → Option (List String × List Char)
  | 0, _ => none
  | fuel + 1, cs => do
    let (k, rest) ← simpleKey (skipBlanks cs)
    match skipBlanks rest with
    | '.' :: more => do
      let (ks, more) ← dottedParts fuel more
      some (k :: ks, more)
    | _ => some ([k], rest)

/-- A dotted key of fewer than `maxDepth` parts: its last part, the parts
before it, and the rest of the text. -/
def dottedKey (cs : List Char) : Option ((List String × String) × List Char) := do
  let (parts, rest) ← dottedParts (cs.length + 1) cs
  if parts.length ≥ maxDepth then none
  else
    let last ← parts.getLast?
    some ((parts.dropLast, last), rest)

end CimBroker.Toml

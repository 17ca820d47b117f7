/-!
# Host names

A host name is one or more labels separated by dots. A label starts with an
ASCII letter, digit or underscore and goes on with letters, digits, hyphens
and underscores. No label is empty, so the name neither starts nor ends with
a dot, and the last label is not all digits, which keeps dotted numbers such
as `1.2.3` from passing as names.
-/

namespace CimBroker.Address.Hostname

/-- Whether `c` may start a label. -/
def isLabelStart (c : Char) : Bool := c.isAlphanum || c = '_'

/-- Whether `c` may stand inside a label. -/
def isLabelChar (c : Char) : Bool := c.isAlphanum || c = '-' || c = '_'

/-- Reads the rest `cs` of a name. `atStart` says that a label must begin
here; `allDigits` that the label being read has only digits so far. -/
def scanLabels : List Char → Bool → Bool → Bool
  | [], atStart, allDigits => !atStart && !allDigits
  | c :: rest, true, _ => if isLabelStart c then scanLabels rest false c.isDigit else false
  | c :: rest, false, allDigits =>
    if isLabelChar c then scanLabels rest false (allDigits && c.isDigit)
    else if c = '.' then scanLabels rest true true
    else false

/-- Whether `s` is a valid host name. -/
def isValid (s : String) : Bool := scanLabels s.toList true true

end CimBroker.Address.Hostname

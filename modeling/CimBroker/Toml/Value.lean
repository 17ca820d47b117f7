import CimBroker.Toml.Datetime

/-!
# TOML values

The values a TOML document holds. A table is the list of its entries in the
order the document gives them; keys are unique in it. Headers, dotted keys
and inline tables all give tables, and an array of tables is an array whose
items are tables, so a reader of the value no longer sees how the document
spelled it. Floats are kept only as their kind: nothing that reads a
configuration takes a float.
-/

namespace CimBroker.Toml

/-- A TOML value. -/
inductive Value where
  | str (s : String)
  | int (n : Int)
  | float
  | bool (b : Bool)
  | datetime (d : Datetime)
  | array (items : List Value)
  | table (entries : List (String × Value))
deriving Repr

end CimBroker.Toml

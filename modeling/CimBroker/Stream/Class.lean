import CimBroker.Stream.Record

/-!
# Class records

A class record holds the class name in slot 0, its namespace in slot 1 and
one property name per further slot, all UTF-8, and no reference slots. Its
reference count is the number of instances linked to it, saturating at the
largest 32-bit value.

Property names are matched without regard to ASCII case, as CIM names are.
-/

namespace CimBroker.Stream

/-- A class: its record. -/
structure ClassRecord where
  record : Record
deriving DecidableEq, Repr

namespace ClassRecord

/-- The UTF-8 bytes of a text. -/
def utf8 (s : String) : List UInt8 := s.toUTF8.data.toList

/-- A class record built from its name, namespace and property names, set in
that order. The number of properties must fit the 32-bit field count. -/
def new (name ns : String) (properties : List String) : Except StreamError ClassRecord := do
  if maxU32 < properties.length then throw (.countOverflow properties.length)
  let r := Record.new .classRecord properties.length 0
  let r ← r.setString 0 (some (utf8 name))
  let r ← r.setString 1 (some (utf8 ns))
  let r ← properties.zipIdx.foldlM (fun r (p, i) => r.setString (2 + i) (some (utf8 p))) r
  return ⟨r⟩

/-- Accepts a decoded record as a class: no reference slots, and every name
present and UTF-8. -/
def ofRecord (r : Record) : Except StreamError ClassRecord :=
  if r.extRefCount ≠ 0 then .error (.corruptRecord .classWithReferences)
  else
    match (List.range (2 + r.fieldCount)).find? (fun slot => (r.text slot).isNone) with
    | some slot => .error (.corruptRecord (.classSlotInvalid slot))
    | none => .ok ⟨r⟩

/-- The class name. -/
def name (c : ClassRecord) : String := (c.record.text 0).getD ""

/-- The namespace. -/
def ns (c : ClassRecord) : String := (c.record.text 1).getD ""

/-- Number of properties. -/
def propertyCount (c : ClassRecord) : Nat := c.record.fieldCount

/-- The property names, in order. -/
def properties (c : ClassRecord) : List String :=
  (List.range c.propertyCount).filterMap fun i => c.record.text (2 + i)

/-- Whether two names are equal up to ASCII case. -/
def sameName (a b : String) : Bool := a.toList.map Char.toLower == b.toList.map Char.toLower

/-- Position of the property called `name`, up to ASCII case. -/
def propertyIndex (c : ClassRecord) (name : String) : Option Nat :=
  c.properties.findIdx? (sameName · name)

/-- Number of instances linked to the class. -/
def refCount (c : ClassRecord) : Nat := c.record.refCount

/-- Links one more instance, saturating at the largest 32-bit value. -/
def addRef (c : ClassRecord) : ClassRecord :=
  ⟨{ c.record with refCount := min (c.record.refCount + 1) maxU32 }⟩

/-- Same name, namespace and property names. -/
def sameShape (a b : ClassRecord) : Bool :=
  a.name == b.name && a.ns == b.ns && a.properties == b.properties

end ClassRecord

end CimBroker.Stream

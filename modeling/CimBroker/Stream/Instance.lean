import CimBroker.Stream.Class

/-!
# Instance records

An instance record holds the host name in slot 0 and the namespace in slot 1
(each null or UTF-8), one value per property of its class in the slots
after them (any bytes, or null), and a fixed number of reference slots,
each empty (token zero) or naming an instance by its token.

A new instance takes its class's namespace; its host and values are null and
its reference slots empty.
-/

namespace CimBroker.Stream

/-- An instance: its record and the handle of its class. -/
structure InstanceRecord where
  record : Record
  cls : ClassId
deriving DecidableEq, Repr

namespace InstanceRecord

/-- A new instance of class `cls`, described by `c`, with `refSlots`
reference slots. The class's number of properties must fit the 32-bit field
count. -/
def new (cls : ClassId) (c : ClassRecord) (refSlots : UInt32) : Except StreamError InstanceRecord := do
  if maxU32 < c.propertyCount then throw (.countOverflow c.propertyCount)
  let r := Record.new .instanceRecord c.propertyCount refSlots.toNat
  let r ← r.setString 1 (some (ClassRecord.utf8 c.ns))
  return ⟨r, cls⟩

/-- Accepts a decoded record as an instance of class `cls`, described by `c`:
as many values as the class has properties, and host and namespace UTF-8
where present. -/
def ofRecord (r : Record) (cls : ClassId) (c : ClassRecord) : Except StreamError InstanceRecord :=
  if r.fieldCount ≠ c.propertyCount then
    .error (.corruptRecord (.valueCountMismatch r.fieldCount c.name c.propertyCount))
  else if (r.string 0).isSome ∧ (r.text 0).isNone then
    .error (.corruptRecord (.instanceSlotNotUtf8 0))
  else if (r.string 1).isSome ∧ (r.text 1).isNone then
    .error (.corruptRecord (.instanceSlotNotUtf8 1))
  else .ok ⟨r, cls⟩

/-- The host name, if set. -/
def hostName (i : InstanceRecord) : Option String := i.record.text 0

/-- The namespace, if set. -/
def ns (i : InstanceRecord) : Option String := i.record.text 1

/-- Sets the host name. -/
def setHostName (i : InstanceRecord) (host : String) : Except StreamError InstanceRecord :=
  (i.record.setString 0 (some (ClassRecord.utf8 host))).map ({ i with record := · })

/-- Sets the namespace. -/
def setNamespace (i : InstanceRecord) (ns : String) : Except StreamError InstanceRecord :=
  (i.record.setString 1 (some (ClassRecord.utf8 ns))).map ({ i with record := · })

/-- Number of values. -/
def valueCount (i : InstanceRecord) : Nat := i.record.fieldCount

/-- Value of property `index`: none when unset or past the values. -/
def value (i : InstanceRecord) (index : Nat) : Option (List UInt8) :=
  if index < i.valueCount then i.record.string (2 + index) else none

/-- Sets the value of property `index`, or clears it. -/
def setValue (i : InstanceRecord) (index : Nat) (v : Option (List UInt8)) :
    Except StreamError InstanceRecord :=
  if index < i.valueCount then (i.record.setString (2 + index) v).map ({ i with record := · })
  else .error (.invalidSlot index i.valueCount)

/-- Number of reference slots. -/
def extRefCount (i : InstanceRecord) : Nat := i.record.extRefCount

/-- The instance that reference slot `slot` names, if any. -/
def extRef (i : InstanceRecord) (slot : Nat) : Option InstanceId :=
  InstanceId.ofToken? (i.record.token slot)

/-- Points reference slot `slot` at `target`, or empties it. -/
def setExtRef (i : InstanceRecord) (slot : Nat) (target : Option InstanceId) :
    Except StreamError InstanceRecord :=
  (i.record.setToken slot ((target.map InstanceId.token).getD 0)).map ({ i with record := · })

/-- The targets of the non-empty reference slots, in slot order. -/
def references (i : InstanceRecord) : List InstanceId :=
  (List.range i.extRefCount).filterMap i.extRef

end InstanceRecord

end CimBroker.Stream

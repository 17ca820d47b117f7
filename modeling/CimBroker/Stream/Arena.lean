import CimBroker.Stream.Instance

/-!
# Arenas

An arena owns the classes and instances of one object graph. Handles are
positions, so records are only ever appended: by `addClass`, by
`addInstance`, and by the decoder, which appends a whole stream at once.

Two instances, possibly of different arenas, have the *same content* when
their classes have the same shape, their host names, namespaces, values and
numbers of reference slots agree, and their references lead, slot by slot,
to instances of the same content. The comparison gives up (answers `false`)
below 1024 levels of references.
-/

namespace CimBroker.Stream

/-- The classes and instances of one object graph. -/
structure Arena where
  classes : Array ClassRecord := #[]
  instances : Array InstanceRecord := #[]
deriving Repr

namespace Arena

/-- The empty arena. -/
def empty : Arena := {}

/-- Number of classes. -/
def classCount (a : Arena) : Nat := a.classes.size

/-- Number of instances. -/
def instanceCount (a : Arena) : Nat := a.instances.size

/-- The class of a handle. -/
def cls (a : Arena) (c : ClassId) : Option ClassRecord := a.classes[c.index]?

/-- The instance of a handle. -/
def inst (a : Arena) (i : InstanceId) : Option InstanceRecord := a.instances[i.index]?

/-- The class record an instance is linked to. -/
def classOf (a : Arena) (i : InstanceId) : Option ClassRecord :=
  (a.inst i).bind fun r => a.cls r.cls

/-- Appends a class; its handle comes back. -/
def addClass (a : Arena) (c : ClassRecord) : ClassId × Arena :=
  (⟨a.classes.size⟩, { a with classes := a.classes.push c })

/-- Appends a new instance of class `c` with `refSlots` reference slots, and
links it to the class. -/
def addInstance (a : Arena) (c : ClassId) (refSlots : UInt32) : Except StreamError (InstanceId × Arena) :=
  match a.cls c with
  | none => .error (.unknownClass c)
  | some record => do
    let i ← InstanceRecord.new c record refSlots
    return (⟨a.instances.size⟩,
      { classes := a.classes.set! c.index record.addRef, instances := a.instances.push i })

/-- Replaces instance `i` by what `f` makes of it; `none` when there is no
such instance. -/
def updateInstance (a : Arena) (i : InstanceId)
    (f : InstanceRecord → Except StreamError InstanceRecord) : Option (Except StreamError Arena) :=
  (a.inst i).map fun r => (f r).map fun r' => { a with instances := a.instances.set! i.index r' }

/-- Sets the property called `name` (up to ASCII case) of instance `i`. -/
def setProperty (a : Arena) (i : InstanceId) (name : String) (v : Option (List UInt8)) :
    Except StreamError Arena :=
  match a.classOf i with
  | none => .error (.unknownInstance i)
  | some c =>
    match c.propertyIndex name with
    | none => .error (.unknownProperty name)
    | some index =>
      match a.updateInstance i (·.setValue index v) with
      | some result => result
      | none => .error (.unknownInstance i)

/-- The value of the property called `name` of instance `i`. -/
def property (a : Arena) (i : InstanceId) (name : String) : Option (List UInt8) := do
  let c ← a.classOf i
  let index ← c.propertyIndex name
  let r ← a.inst i
  r.value index

/-- Points reference slot `slot` of instance `i` at `target`, or empties
it. The target must exist and differ from `i`. -/
def setReference (a : Arena) (i : InstanceId) (slot : Nat) (target : Option InstanceId) :
    Except StreamError Arena :=
  let checked : Except StreamError Unit :=
    match target with
    | some t =>
      if a.instances.size ≤ t.index then .error (.unknownInstance t)
      else if t = i then .error (.cyclicReference i)
      else .ok ()
    | none => .ok ()
  match checked with
  | .error e => .error e
  | .ok () =>
    match a.updateInstance i (·.setExtRef slot target) with
    | some result => result
    | none => .error (.unknownInstance i)

/-- Extends a chain ending at `prev` by `n` new instances of class `c`, each
with one reference slot pointing at the one before; the last one comes back. -/
def extendChain (c : ClassId) : Nat → InstanceId → Arena → Except StreamError (InstanceId × Arena)
  | 0, prev, a => .ok (prev, a)
  | n + 1, prev, a => do
    let (next, a) ← a.addInstance c 1
    let a ← a.setReference next 0 (some prev)
    extendChain c n next a

/-- Appends a chain of `count` instances of class `c` (at least one), each
pointing at the one before through its single reference slot; the first and
the last come back. -/
def addChain (a : Arena) (c : ClassId) (count : Nat) :
    Except StreamError (InstanceId × InstanceId × Arena) := do
  let (first, a) ← a.addInstance c 1
  let (last, a) ← extendChain c (count - 1) first a
  return (first, last, a)

/-- Appends decoded classes and instances. -/
def commit (a : Arena) (classes : List ClassRecord) (instances : List InstanceRecord) : Arena :=
  { classes := a.classes ++ classes.toArray, instances := a.instances ++ instances.toArray }

/-- Whether instance `x` of `a` and instance `y` of `b` have the same content,
following at most `budget` levels of references. -/
def sameContentWithin (a b : Arena) : Nat → InstanceId → InstanceId → Bool
  | 0, _, _ => false
  | budget + 1, x, y =>
    match a.inst x, b.inst y with
    | some ix, some iy =>
      match a.cls ix.cls, b.cls iy.cls with
      | some cx, some cy =>
        cx.sameShape cy && ix.hostName == iy.hostName && ix.ns == iy.ns &&
          ix.extRefCount == iy.extRefCount &&
          (List.range ix.valueCount).all (fun k => ix.value k == iy.value k) &&
          (List.range ix.extRefCount).all fun s =>
            match ix.extRef s, iy.extRef s with
            | none, none => true
            | some rx, some ry => sameContentWithin a b budget rx ry
            | _, _ => false
      | _, _ => false
    | _, _ => false

/-- Whether instance `x` of `a` and instance `y` of `b` have the same content. -/
def sameContent (a : Arena) (x : InstanceId) (b : Arena) (y : InstanceId) : Bool :=
  sameContentWithin a b (maxReferenceDepth + 1) x y

end Arena

end CimBroker.Stream

import CimBroker.Stream.Arena

/-!
# Resolution tables

Writing a set of instances walks the reference graph depth first and builds
three tables:

* the **class table** lists each class handle once, in the order first met;
* the **class-resolution table** has one entry per instance written,
  `(instance token, class-table index)`; its order is the order in which the
  instances are written;
* the **reference-resolution table** has one entry per non-empty reference
  slot, `(token of the target, class-resolution index of the target)`.

An instance is registered only after everything it references, so every
reference points back in the class-resolution table, and a reader resolves
it in one forward pass. An instance met again is not registered again. An
instance met again while its own references are still being walked closes a
cycle, and the walk fails; so does a chain deeper than 1024 references.
A failed walk leaves what it did so far in the tables, its unfinished
instances marked as in progress.
-/

namespace CimBroker.Stream

/-- A table entry: a token and an index. -/
structure Entry where
  token : Nat
  index : Nat
deriving DecidableEq, Repr

/-- How far the walk has come with an instance. -/
inductive Visit where
  | inProgress
  | done (index : Nat)
deriving DecidableEq, Repr

/-- The tables of one walk. -/
structure Tables where
  classTable : Array ClassId := #[]
  classResolution : Array Entry := #[]
  referenceResolution : Array Entry := #[]
  instanceOrder : Array InstanceId := #[]
  /-- The walk's mark of each instance, by position. -/
  visits : Array (Option Visit) := #[]
deriving Repr

namespace Tables

/-- Tables of a walk not yet begun. -/
def empty : Tables := {}

/-- The walk's mark of instance `i`. -/
def visitOf (t : Tables) (i : InstanceId) : Option Visit := (t.visits[i.index]?).join

/-- Marks instance `i`. -/
def mark (t : Tables) (i : InstanceId) (v : Visit) : Tables :=
  let visits := if i.index < t.visits.size then t.visits
    else t.visits ++ Array.replicate (i.index + 1 - t.visits.size) none
  { t with visits := visits.set! i.index (some v) }

/-- Position of class `c` in the class table, appending it when first met. -/
def appendClass (t : Tables) (c : ClassId) : Nat × Tables :=
  match t.classTable.findIdx? (· = c) with
  | some k => (k, t)
  | none => (t.classTable.size, { t with classTable := t.classTable.push c })

/-- One step of walking an instance's references: visits `target` with
`visitTarget` and records the position it was written at. The first failure
stops the walk. -/
def walkReference (visitTarget : InstanceId → Tables → Except StreamError Nat × Tables)
    (acc : Except StreamError Unit × Tables) (target : InstanceId) : Except StreamError Unit × Tables :=
  match acc with
  | (.error e, t) => (.error e, t)
  | (.ok (), t) =>
    match visitTarget target t with
    | (.ok k, t) => (.ok (), { t with referenceResolution := t.referenceResolution.push ⟨target.token, k⟩ })
    | (.error e, t) => (.error e, t)

/-- Registers instance `i` of class `cls` once everything it references is
registered: its class goes into the class table if it is new there, and the
instance takes the next position of the class-resolution table. -/
def register (t : Tables) (i : InstanceId) (cls : ClassId) : Nat × Tables :=
  let (classIndex, t) := t.appendClass cls
  let t := { t with classResolution := t.classResolution.push ⟨i.token, classIndex⟩,
                    instanceOrder := t.instanceOrder.push i }
  let k := t.classResolution.size - 1
  (k, t.mark i (.done k))

/-- Registers instance `i` and, first, everything it references, following
at most `budget` more levels. The position of `i` in the class-resolution
table comes back, or the reason the walk failed; the tables keep what the
walk did either way. -/
def visit (a : Arena) (budget : Nat) (i : InstanceId) (t : Tables) : Except StreamError Nat × Tables :=
  match t.visitOf i with
  | some (.done k) => (.ok k, t)
  | some .inProgress => (.error (.cyclicReference i), t)
  | none =>
    match budget with
    | 0 => (.error (.referenceTooDeep maxReferenceDepth), t)
    | b + 1 =>
      match a.inst i with
      | none => (.error (.unknownInstance i), t)
      | some r =>
        match r.references.foldl (walkReference (visit a b)) (.ok (), t.mark i .inProgress) with
        | (.error e, t) => (.error e, t)
        | (.ok (), t) =>
          let (k, t) := t.register i r.cls
          (.ok k, t)

/-- Registers a top-level instance and everything it references. -/
def appendInstance (t : Tables) (a : Arena) (i : InstanceId) : Except StreamError Nat × Tables :=
  visit a (maxReferenceDepth + 1) i t

end Tables

end CimBroker.Stream

import CimBroker.Stream.Encode

/-!
# Reading a stream

The reader checks the magic and the version, reads the classes, the two
tables and then one instance block per class-resolution entry, and finally
demands that no byte is left. Each class and instance record is rebuilt by
`Record.ofWire` and checked; a decoded instance gets 64 free bytes so that
its names can be changed in place.

Every reference slot of a decoded instance holds a token that the
reference table maps to an earlier position of the stream; the slot is then
pointed at the instance decoded there, and that instance stops being
top-level. The first entry of a repeated token wins. Decoded classes count
the decoded instances linked to them.

Nothing is appended to the arena unless the whole stream is read; records
are appended after the arena's own, so handles in the stream are offsets
from the arena's counts.
-/

namespace CimBroker.Stream

/-- Free bytes a decoded instance gets. -/
def instanceSlack : Nat := 64

/-- Bytes of one table entry. -/
def entrySize : Nat := 16

/-- `n` table entries, appended to `acc`. -/
def readEntries : Nat → Reader → Array Entry → Except StreamError (Array Entry × Reader)
  | 0, r, acc => .ok (acc, r)
  | n + 1, r, acc => do
    let (token, r) ← r.u64
    let (index, r) ← r.u64
    readEntries n r (acc.push ⟨token, index⟩)

/-- A table; a count that the rest of the input cannot hold fails before any
entry is read. -/
def readTable (r : Reader) : Except StreamError (Array Entry × Reader) := do
  let (count, r) ← r.u32
  let needed := count * entrySize
  if needed > r.remaining then throw (.truncated r.pos needed r.remaining)
  readEntries count r #[]

/-- `n` class blocks, appended to `acc`. -/
def readClasses : Nat → Reader → Array ClassRecord → Except StreamError (Array ClassRecord × Reader)
  | 0, r, acc => .ok (acc, r)
  | n + 1, r, acc => do
    let (bytes, r) ← r.block
    let record ← Record.ofWire bytes 0 .classRecord
    let c ← ClassRecord.ofRecord record
    readClasses n r (acc.push c)

/-- The position that reference token `token` maps to: its first entry. -/
def referenceTarget (refs : Array Entry) (token : Nat) : Option Nat :=
  (refs.find? (·.token = token)).map (·.index)

/-- A decoded instance, with the position in the stream's class list of the
class it was checked against and linked to. -/
structure Decoded (classCount : Nat) where
  inst : InstanceRecord
  classPos : Fin classCount

variable {n : Nat}

/-- Resolves one reference slot of the instance at `position`: the slot
`slot`, holding `token` as the stream carried it. A token other than zero
must be in the reference table and name an earlier position; the slot is
pointed at the instance there, whose handle is its position plus `base`,
and that instance is marked as claimed (token zero in `marks`). -/
def resolveSlot (refs : Array Entry) (base position : Nat) (hpos : position < n)
    (acc : InstanceRecord × Vector Nat n) (tokenSlot : Nat × Nat) :
    Except StreamError (InstanceRecord × Vector Nat n) :=
  let (i, marks) := acc
  let (token, slot) := tokenSlot
  if token = 0 then .ok (i, marks)
  else
    match referenceTarget refs token with
    | none => .error (.unresolvedReference token)
    | some target =>
      if h : target < position then do
        let i ← i.setExtRef slot (some ⟨base + target⟩)
        return (i, marks.set target 0 (by omega))
      else .error (.forwardReference position target)

/-- Resolves the reference slots of the instance at `position` in slot
order. Each slot is read before it is written, so the token read is the one
the stream carried. -/
def resolveSlots (refs : Array Entry) (base position : Nat) (hpos : position < n)
    (i : InstanceRecord) (marks : Vector Nat n) : Except StreamError (InstanceRecord × Vector Nat n) :=
  i.record.tokens.zipIdx.foldlM (resolveSlot refs base position hpos) (i, marks)

/-- Decodes one instance block per class-resolution entry of `entries`, the
first of them at `position`. -/
def readInstances (classes : Array ClassRecord) (refs : Array Entry) (classBase base : Nat) :
    (entries : List Entry) → (position : Nat) → position + entries.length = n → Reader →
    Array (Decoded classes.size) → Vector Nat n →
    Except StreamError (Array (Decoded classes.size) × Vector Nat n × Reader)
  | [], _, _, r, acc, marks => .ok (acc, marks, r)
  | e :: es, position, h, r, acc, marks => do
    let (bytes, r) ← r.block
    let record ← Record.ofWire bytes instanceSlack .instanceRecord
    if hk : e.index < classes.size then
      let i ← InstanceRecord.ofRecord record ⟨classBase + e.index⟩ classes[e.index]
      let (i, marks) ← resolveSlots refs base position (by simp at h; omega) i marks
      readInstances classes refs classBase base es (position + 1) (by simp at h; omega) r
        (acc.push ⟨i, ⟨e.index, hk⟩⟩) marks
    else throw (.classIndexOutOfRange e.index classes.size)

/-- Links each decoded instance to its class: one more reference on the
class at its class position. -/
def countReferences (classes : Array ClassRecord) (decoded : Array (Decoded classes.size)) :
    Vector ClassRecord classes.size :=
  decoded.foldl (fun cs d => cs.set d.classPos (cs[d.classPos]).addRef) classes.toVector

/-- Checks the magic and the version at the start of a stream. -/
def readHeader (r : Reader) : Except StreamError Reader := do
  let (magic, r) ← r.take 4
  if magic ≠ streamMagic then throw (.invalidMagic magic)
  let (version, r) ← r.u32
  if version ≠ streamVersion then throw (.unsupportedVersion version)
  return r

/-- What a stream holds before its instance blocks: the classes, the
class-resolution entries (none with token zero) and the reference-resolution
entries. -/
def readFront (data : List UInt8) :
    Except StreamError (Array ClassRecord × Array Entry × Array Entry × Reader) := do
  let r ← readHeader (Reader.start data)
  let (classCount, r) ← r.u32
  let (classes, r) ← readClasses classCount r #[]
  let (entries, r) ← readTable r
  if entries.any (·.token = 0) then throw (.corruptRecord .zeroToken)
  let (refs, r) ← readTable r
  return (classes, entries, refs, r)

/-- Decodes a stream into arena `a`: the top-level instances (those no
reference slot claims) and the arena with the stream's records appended.

Every position the decoder takes into an array carries its bound: a claimed
position is below the claiming one, and a class position was checked
against the class list before the instance was linked. -/
def deserialize (data : List UInt8) (a : Arena) : Except StreamError (List InstanceId × Arena) := do
  let (classes, entries, refs, r) ← readFront data
  let classBase := a.classCount
  let base := a.instanceCount
  let (decoded, marks, r) ← readInstances classes refs classBase base entries.toList 0 (by simp) r #[]
    (entries.map (·.token)).toVector
  if r.remaining ≠ 0 then throw (.trailingBytes r.remaining)
  let tops := (marks.toList.zipIdx.filter (·.1 ≠ 0)).map fun (_, p) => (⟨base + p⟩ : InstanceId)
  return (tops, a.commit (countReferences classes decoded).toList (decoded.toList.map (·.inst)))

end CimBroker.Stream

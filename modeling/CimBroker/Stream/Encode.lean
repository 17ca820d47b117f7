import CimBroker.Stream.Tables
import CimBroker.Stream.Wire

/-!
# Writing a stream

```text
"CIMS" u32 version 1
u32 class count      { u64 length, class bytes }*
u32 entry count      { u64 token, u64 class index }*   class resolution
u32 entry count      { u64 token, u64 position }*      reference resolution
                     { u64 length, instance bytes }*   one per class-resolution entry
```

The tables come from walking the top-level instances in turn
(`Tables.appendInstance`); the first failure of a walk is the failure of
the whole write. Counts are 32-bit: a class list or a table with more
entries is refused. Records go out as their bytes in use.
-/

namespace CimBroker.Stream

/-- The four bytes a stream starts with. -/
def streamMagic : List UInt8 := [67, 73, 77, 83]

/-- The version this library writes and reads. -/
def streamVersion : Nat := 1

/-- A 32-bit count, refused when `n` does not fit. -/
def putCount (n : Nat) : Except StreamError (List UInt8) :=
  if maxU32 < n then .error (.countOverflow n) else .ok (putU32 n)

/-- The bytes of table entries: token and index of each. -/
def putEntries (entries : List Entry) : List UInt8 :=
  entries.flatMap fun e => putU64 e.token ++ putU64 e.index

/-- A table: the entry count, then the entries. -/
def putTable (entries : List Entry) : Except StreamError (List UInt8) := do
  let count ← putCount entries.length
  return count ++ putEntries entries

/-- The tables of walking `tops` in turn, or the first failure. -/
def Tables.ofTops (a : Arena) (tops : List InstanceId) : Except StreamError Tables :=
  tops.foldlM (fun t i => match t.appendInstance a i with
    | (.ok _, t) => .ok t
    | (.error e, _) => .error e) Tables.empty

/-- The stream of the instances `tops` and everything they reference. -/
def serialize (a : Arena) (tops : List InstanceId) : Except StreamError (List UInt8) := do
  let t ← Tables.ofTops a tops
  let classCount ← putCount t.classTable.size
  let classes ← t.classTable.toList.mapM fun c =>
    match a.cls c with
    | some r => .ok r
    | none => .error (.unknownClass c)
  let classResolution ← putTable t.classResolution.toList
  let referenceResolution ← putTable t.referenceResolution.toList
  let instances ← t.instanceOrder.toList.mapM fun i =>
    match a.inst i with
    | some r => .ok r
    | none => .error (.unknownInstance i)
  return streamMagic ++ putU32 streamVersion ++ classCount ++
    classes.flatMap (fun c => putBlock c.record.inUseBytes) ++
    classResolution ++ referenceResolution ++
    instances.flatMap (fun i => putBlock i.record.inUseBytes)

end CimBroker.Stream

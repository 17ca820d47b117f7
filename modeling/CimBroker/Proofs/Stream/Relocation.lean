import CimBroker.Proofs.Stream.Decoding

/-!
# Decoding into any arena

A stream names its classes and instances by their positions in the stream.
Decoded into an arena, they are appended after the arena's own records, so
every handle they get is the stream's position shifted by the arena's
counts. Nothing else of the arena is read: decoding into an arena is
decoding into the empty arena, with the class handles shifted by the
arena's class count and the references and the top-level handles shifted
by its instance count, and the result appended. In particular the decoder
fails on the same streams, with the same error, whatever the arena holds.

## Main results

* `deserialize_relocate` — decoding into an arena is decoding into the empty
  arena, relocated.
-/

namespace CimBroker.Stream

/-- An instance decoded into the empty arena, as it stands in an arena with
`classBase` classes and `base` instances before the stream's: its class
handle and the instances it references are shifted. -/
def InstanceRecord.relocate (classBase base : Nat) (i : InstanceRecord) : InstanceRecord :=
  { record := { i.record with tokens := i.record.tokens.map (shiftToken base) },
    cls := ⟨classBase + i.cls.index⟩ }

/-- A decoded instance, relocated; its position in the class list stays. -/
def Decoded.relocate {k : Nat} (classBase base : Nat) (d : Decoded k) : Decoded k :=
  ⟨d.inst.relocate classBase base, d.classPos⟩

@[simp] theorem Arena.classCount_empty : Arena.empty.classCount = 0 := rfl

@[simp] theorem Arena.instanceCount_empty : Arena.empty.instanceCount = 0 := rfl

theorem Except.map_bind {ε α β γ : Type} (x : Except ε α) (f : α → Except ε β) (g : β → γ) :
    (x >>= f).map g = x >>= fun a => (f a).map g := by
  cases x <;> rfl

/-- Resolving an instance's slots at offsets `classBase` and `base` is
resolving them at offset zero, relocated. -/
theorem resolveSlots_relocate {n : Nat} (refs : Array Entry) (classBase base position : Nat)
    (hpos : position < n) (i : InstanceRecord) (marks : Vector Nat n) :
    resolveSlots refs base position hpos { i with cls := ⟨classBase + i.cls.index⟩ } marks =
      (resolveSlots refs 0 position hpos i marks).map fun (i', m) => (i'.relocate classBase base, m) := by
  rw [resolveSlots_eq, resolveSlots_eq]
  cases i.record.tokens.mapM (resolveToken refs position) <;> simp [InstanceRecord.relocate]

/-- The class list counts the same references whatever the decoded
instances hold: only their class positions are read. -/
theorem countReferences_relocate (classes : Array ClassRecord) (decoded : Array (Decoded classes.size))
    (classBase base : Nat) :
    countReferences classes (decoded.map (Decoded.relocate classBase base)) = countReferences classes decoded := by
  unfold countReferences
  rw [Array.foldl_map]
  rfl

/-- Decoding the instance blocks at offsets `classBase` and `base` is
decoding them at offset zero, relocated. The induction is on the entries
still to read; each step reads one block with the same reader on both
sides, so both fail together or both go on with the same marks. -/
theorem readInstances_relocate (classes : Array ClassRecord) (refs : Array Entry) (classBase base : Nat)
    {n : Nat} (entries : List Entry) (position : Nat) (h : position + entries.length = n) (r : Reader)
    (acc : Array (Decoded classes.size)) (marks : Vector Nat n) :
    readInstances classes refs classBase base entries position h r (acc.map (Decoded.relocate classBase base))
        marks =
      (readInstances classes refs 0 0 entries position h r acc marks).map fun (d, m, r) =>
        (d.map (Decoded.relocate classBase base), m, r) := by
  induction entries generalizing position r acc marks with
  | nil => simp [readInstances]
  | cons e es ih =>
    simp only [readInstances]
    cases r.block with
    | error err => rfl
    | ok block =>
      obtain ⟨bytes, r'⟩ := block
      simp only [Except.ok_bind]
      cases Record.ofWire bytes instanceSlack .instanceRecord with
      | error err => rfl
      | ok record =>
        simp only [Except.ok_bind]
        by_cases hk : e.index < classes.size
        · simp only [dif_pos hk]
          rw [InstanceRecord.ofRecord_cls record ⟨classBase + e.index⟩ ⟨0 + e.index⟩]
          cases hi : InstanceRecord.ofRecord record ⟨0 + e.index⟩ classes[e.index] with
          | error err => rfl
          | ok i =>
            have hcls : i.cls = ⟨0 + e.index⟩ := by rw [(InstanceRecord.ofRecord_eq_ok.1 hi).1]
            have hrelocated : { i with cls := (⟨classBase + e.index⟩ : ClassId) } =
                { i with cls := ⟨classBase + i.cls.index⟩ } := by
              simp [hcls]
            simp only [Except.map_ok_eq, Except.ok_bind, hrelocated, resolveSlots_relocate]
            cases resolveSlots refs 0 position _ i marks with
            | error err => rfl
            | ok resolved =>
              obtain ⟨i', marks'⟩ := resolved
              simp only [Except.map_ok_eq, Except.ok_bind]
              rw [← ih]
              simp [Array.map_push, Decoded.relocate]
        · simp only [dif_neg hk]
          rfl

/-- **Decoding into any arena.** Decoding `data` into arena `b` fails
exactly when decoding it into the empty arena does, with the same error;
otherwise it appends to `b`, after its own records, the classes decoded
into the empty arena and the instances decoded there, with their class
handles shifted by `b`'s class count and their references shifted by its
instance count, and it returns the top-level instances shifted by that
count. -/
theorem deserialize_relocate (data : List UInt8) (b : Arena) :
    deserialize data b = (deserialize data Arena.empty).map fun (tops, a) =>
      (tops.map fun t => ⟨b.instanceCount + t.index⟩,
        b.commit a.classes.toList (a.instances.toList.map (InstanceRecord.relocate b.classCount b.instanceCount))) := by
  unfold deserialize
  rw [Except.map_bind]
  congr 1
  funext front
  obtain ⟨classes, entries, refs, r⟩ := front
  simp only [Arena.classCount_empty, Arena.instanceCount_empty]
  have hread := readInstances_relocate classes refs b.classCount b.instanceCount entries.toList 0 (by simp) r #[]
    (entries.map (·.token)).toVector
  simp only [Array.map_empty] at hread
  rw [hread, Except.map_bind]
  cases readInstances classes refs 0 0 entries.toList 0 _ r #[] (entries.map (·.token)).toVector with
  | error err => rfl
  | ok result =>
    obtain ⟨decoded, marks, r'⟩ := result
    simp only [Except.map_ok_eq, Except.ok_bind]
    by_cases htrail : r'.remaining ≠ 0
    · simp [htrail]
    · simp [htrail, countReferences_relocate, Arena.commit, Arena.empty, Arena.classCount, Arena.instanceCount]
      rfl

end CimBroker.Stream

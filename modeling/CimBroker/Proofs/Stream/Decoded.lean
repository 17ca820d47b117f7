import CimBroker.Proofs.Stream.Records

/-!
# What a decoded stream appends

A successful decode appends the stream's classes and instances to the
arena. This module says what the appended records satisfy, pass by pass:

* every class of the class pass is sound and counts no instance;
* every instance of the instance pass is sound, linked to the class the
  stream gave it, with one value per property of that class, and every
  reference it holds names an instance decoded before it;
* the class list then counts, for each class, the decoded instances linked
  to it, saturating at the largest 32-bit value.

## Main results

* `deserialize_eq_ok` — the parts of a successful decode.
* `readInstances_decodedAt` — what the instance pass guarantees of each
  instance.
* `countReferences_getElem` — each decoded class counts its instances.
-/

namespace CimBroker.Stream

/-! ## The class pass -/

/-- Every class the class pass reads is sound and counts no instance. The
induction is on the classes still to read. -/
theorem readClasses_sound : ∀ (n : Nat) (r : Reader) (acc : Array ClassRecord) {classes : Array ClassRecord}
    {r' : Reader}, readClasses n r acc = .ok (classes, r') → (∀ c ∈ acc, c.Sound ∧ c.refCount = 0) →
      ∀ c ∈ classes, c.Sound ∧ c.refCount = 0
  | 0, r, acc, _, _, h, hacc => by
    cases h
    exact hacc
  | n + 1, r, acc, _, _, h, hacc => by
    simp only [readClasses] at h
    obtain ⟨⟨bytes, r₁⟩, -, h⟩ := Except.bind_eq_ok.1 h
    dsimp only at h
    obtain ⟨record, hwire, h⟩ := Except.bind_eq_ok.1 h
    obtain ⟨c, hc, h⟩ := Except.bind_eq_ok.1 h
    refine readClasses_sound n r₁ _ h fun c' hc' => ?_
    rcases Array.mem_push.1 hc' with hc' | rfl
    · exact hacc c' hc'
    · exact ClassRecord.Sound.of_decoded hwire hc

/-! ## The instance pass -/

/-- What the decoder guarantees of the instance it decoded at position `j`
of a stream with class list `classes`, decoded after `classBase` classes and
`base` instances: it is sound, linked to the class the stream gave it, with
one value per property of that class, and each reference it holds names an
instance decoded before it. -/
structure DecodedAt (classes : Array ClassRecord) (classBase base j : Nat) (d : Decoded classes.size) : Prop where
  sound : d.inst.Sound
  cls_eq : d.inst.cls = ⟨classBase + d.classPos⟩
  valueCount_eq : d.inst.valueCount = (classes.toVector.get d.classPos).propertyCount
  refs_before : ∀ t ∈ d.inst.record.tokens, t ≠ 0 → base ≤ t - 1 ∧ t - 1 < base + j

/-- One instance of the instance pass: the block `bytes` checked against
class position `k` and its reference slots resolved. -/
theorem decodedAt_resolved {classes : Array ClassRecord} {refs : Array Entry} {classBase base position n : Nat}
    {hpos : position < n} {bytes : List UInt8} {record : Record} {i i' : InstanceRecord} {k : Nat}
    {marks marks' : Vector Nat n} (hk : k < classes.size)
    (hwire : Record.ofWire bytes instanceSlack .instanceRecord = .ok record)
    (hi : InstanceRecord.ofRecord record ⟨classBase + k⟩ classes[k] = .ok i)
    (hres : resolveSlots refs base position hpos i marks = .ok (i', marks')) :
    DecodedAt classes classBase base position ⟨i', ⟨k, hk⟩⟩ := by
  rw [resolveSlots_eq] at hres
  obtain ⟨us, hus, hres⟩ := Except.map_eq_ok.1 hres
  cases hres
  obtain ⟨rfl, hcount, -, -⟩ := InstanceRecord.ofRecord_eq_ok.1 hi
  have hlen := length_of_mapM_eq_ok hus
  refine ⟨InstanceRecord.Sound.of_decoded hwire hi (by simpa using hlen), rfl, hcount, ?_⟩
  intro t ht ht0
  obtain ⟨u, hu, rfl⟩ := List.mem_map.1 ht
  obtain ⟨tok, -, htok⟩ := mem_of_mapM_eq_ok hus u hu
  have hle := le_of_resolveToken_eq_ok htok
  have hu0 : u ≠ 0 := by
    intro h0
    simp [h0] at ht0
  simp only [shiftToken, hu0, if_false]
  omega

/-- **The instance pass.** Every instance it decodes satisfies `DecodedAt`
at its position. The induction is on the entries still to read; the
instances decoded so far are as many as the position reached. -/
theorem readInstances_decodedAt (classes : Array ClassRecord) (refs : Array Entry) (classBase base : Nat)
    {n : Nat} : ∀ (entries : List Entry) (position : Nat) (h : position + entries.length = n) (r : Reader)
    (acc : Array (Decoded classes.size)) (marks : Vector Nat n) {decoded : Array (Decoded classes.size)}
    {marks' : Vector Nat n} {r' : Reader},
    readInstances classes refs classBase base entries position h r acc marks = .ok (decoded, marks', r') →
    acc.size = position → (∀ j (hj : j < acc.size), DecodedAt classes classBase base j acc[j]) →
      ∀ j (hj : j < decoded.size), DecodedAt classes classBase base j decoded[j]
  | [], _, _, _, acc, _, _, _, _, hread, _, hacc => by
    cases hread
    exact hacc
  | e :: es, position, h, r, acc, marks, _, _, _, hread, hsize, hacc => by
    simp only [readInstances] at hread
    obtain ⟨⟨bytes, r₁⟩, -, hread⟩ := Except.bind_eq_ok.1 hread
    dsimp only at hread
    obtain ⟨record, hwire, hread⟩ := Except.bind_eq_ok.1 hread
    split at hread
    · rename_i hk
      obtain ⟨i, hi, hread⟩ := Except.bind_eq_ok.1 hread
      obtain ⟨⟨i', marks₁⟩, hres, hread⟩ := Except.bind_eq_ok.1 hread
      have hnew := decodedAt_resolved hk hwire hi hres
      refine readInstances_decodedAt classes refs classBase base es (position + 1) _ r₁ _ marks₁ hread
        (by simp [hsize]) fun j hj => ?_
      rw [Array.getElem_push]
      split
      · exact hacc j ‹_›
      · have hj' : j = position := by simp at hj; omega
        subst hj'
        exact hnew
    · cases hread

/-! ## Counting the instances of each class -/

/-- Linking the decoded instances `ds` to the classes `cs` in turn: a class
counts the instances at its position, on top of what it counted. The
induction is on the instances still to link. -/
private theorem foldl_addRef {k : Nat} (ds : List (Decoded k)) (cs : Vector ClassRecord k) (c : Nat)
    (hc : c < k) (hle : cs[c].refCount ≤ maxU32) :
    (ds.foldl (fun cs d => cs.set d.classPos (cs[d.classPos]).addRef) cs)[c] =
      ⟨{ cs[c].record with refCount := min (cs[c].refCount + ds.countP (·.classPos.val = c)) maxU32 }⟩ := by
  induction ds generalizing cs with
  | nil =>
    have hmin : min (cs[c].refCount + 0) maxU32 = cs[c].refCount := by omega
    simp only [List.foldl_nil, List.countP_nil, hmin]
    rfl
  | cons d ds ih =>
    simp only [List.foldl_cons, List.countP_cons]
    have hset : (cs.set d.classPos (cs[d.classPos]).addRef)[c] =
        if d.classPos.val = c then (cs[c]).addRef else cs[c] := by
      simp only [Fin.getElem_fin, Vector.getElem_set]
      split <;> simp_all
    have hle' : (cs.set d.classPos (cs[d.classPos]).addRef)[c].refCount ≤ maxU32 := by
      rw [hset]
      split
      · simp only [ClassRecord.addRef, ClassRecord.refCount]
        omega
      · exact hle
    rw [ih _ hle', hset]
    by_cases hd : d.classPos.val = c
    · simp only [hd, if_true, decide_true]
      simp only [ClassRecord.addRef, ClassRecord.refCount, ClassRecord.mk.injEq, Record.mk.injEq, true_and,
        and_true]
      simp only [ClassRecord.refCount] at hle
      omega
    · simp [hd]

/-- Each decoded class counts, up to the largest 32-bit value, the decoded
instances linked to it. -/
theorem countReferences_getElem (classes : Array ClassRecord) (decoded : Array (Decoded classes.size))
    (c : Nat) (hc : c < classes.size) (hzero : classes[c].refCount = 0) :
    (countReferences classes decoded)[c] =
      ⟨{ classes[c].record with refCount := min maxU32 (decoded.toList.countP (·.classPos.val = c)) }⟩ := by
  have hget : classes.toVector[c] = classes[c] := rfl
  rw [countReferences, ← Array.foldl_toList, foldl_addRef _ _ c hc (by simp [hget, hzero])]
  simp only [hget, hzero, Nat.zero_add, Nat.min_comm]

/-! ## A whole decode -/

/-- **The parts of a successful decode.** The front of the stream was read,
the instance pass succeeded on the whole rest, and the arena got the
counted classes and the decoded instances appended; the top-level
instances are the positions no reference claimed, after the arena's. -/
theorem deserialize_eq_ok {data : List UInt8} {a a' : Arena} {tops : List InstanceId}
    (h : deserialize data a = .ok (tops, a')) :
    ∃ classes entries refs r decoded marks r',
      readFront data = .ok (classes, entries, refs, r) ∧
      readInstances classes refs a.classCount a.instanceCount entries.toList 0 (by simp) r #[]
        (entries.map (·.token)).toVector = .ok (decoded, marks, r') ∧
      r'.remaining = 0 ∧
      tops = (marks.toList.zipIdx.filter (·.1 ≠ 0)).map (fun (_, p) => (⟨a.instanceCount + p⟩ : InstanceId)) ∧
      a' = a.commit (countReferences classes decoded).toList (decoded.toList.map (·.inst)) := by
  simp only [deserialize] at h
  obtain ⟨⟨classes, entries, refs, r⟩, hfront, h⟩ := Except.bind_eq_ok.1 h
  obtain ⟨⟨decoded, marks, r'⟩, hread, h⟩ := Except.bind_eq_ok.1 h
  split at h
  · cases h
  · rename_i hrest
    cases h
    exact ⟨classes, entries, refs, r, decoded, marks, r', hfront, hread, by simpa using hrest, rfl, rfl⟩

/-- Every class at the front of a stream is sound and counts no instance. -/
theorem readFront_sound {data : List UInt8} {classes : Array ClassRecord} {entries refs : Array Entry}
    {r : Reader} (h : readFront data = .ok (classes, entries, refs, r)) :
    ∀ c ∈ classes, c.Sound ∧ c.refCount = 0 := by
  simp only [readFront] at h
  obtain ⟨r₁, -, h⟩ := Except.bind_eq_ok.1 h
  obtain ⟨⟨count, r₂⟩, -, h⟩ := Except.bind_eq_ok.1 h
  obtain ⟨⟨cs, r₃⟩, hcs, h⟩ := Except.bind_eq_ok.1 h
  obtain ⟨⟨es, r₄⟩, -, h⟩ := Except.bind_eq_ok.1 h
  split at h
  · cases h
  obtain ⟨⟨rs, r₅⟩, -, h⟩ := Except.bind_eq_ok.1 h
  cases h
  exact readClasses_sound count r₂ #[] hcs (by simp)

end CimBroker.Stream

import CimBroker.Proofs.Stream.Decoded

/-!
# Every reachable arena is well formed

An arena starts empty and changes only by its operations: adding a class
made by `ClassRecord.new`, adding an instance, setting a property, a value,
the host name or the namespace of an instance, pointing a reference slot,
and decoding a stream into it (`Arena.Step`). A call that fails returns an
error and the arena stays as it was, so the arenas that any sequence of
calls reaches are those the successful calls reach (`Arena.Reachable`).

Every such arena satisfies one invariant (`Arena.Inv`): every record is
sound, every instance is linked to a class of the arena and has one value
per property of it, every reference names another instance of the arena,
and every class counts the instances linked to it, saturating at the
largest 32-bit value. One lemma per operation shows that it keeps the
invariant; the invariant then holds of every reachable arena by induction on
the calls.

## Main results

* `Arena.Reachable.inv` — the invariant holds in every reachable arena.
* `Arena.Reachable.wellFormed` — every reachable arena is well formed: its
  instances are linked, its references name other instances of the arena,
  its records' size fields agree with their buffers and their strings lie in
  their heaps, and its classes count their instances.
-/

namespace CimBroker.Stream

namespace Arena

/-- One successful call of an arena operation, from arena `a` to `a'`. -/
inductive Step : Arena → Arena → Prop
  | addClass (a : Arena) {name ns : String} {props : List String} {c : ClassRecord} :
      ClassRecord.new name ns props = .ok c → Step a (a.addClass c).2
  | addInstance {a a' : Arena} {cls : ClassId} {refSlots : UInt32} {i : InstanceId} :
      a.addInstance cls refSlots = .ok (i, a') → Step a a'
  | setProperty {a a' : Arena} {i : InstanceId} {name : String} {v : Option (List UInt8)} :
      a.setProperty i name v = .ok a' → Step a a'
  | setValue {a a' : Arena} {i : InstanceId} {index : Nat} {v : Option (List UInt8)} :
      a.updateInstance i (·.setValue index v) = some (.ok a') → Step a a'
  | setHostName {a a' : Arena} {i : InstanceId} {host : String} :
      a.updateInstance i (·.setHostName host) = some (.ok a') → Step a a'
  | setNamespace {a a' : Arena} {i : InstanceId} {ns : String} :
      a.updateInstance i (·.setNamespace ns) = some (.ok a') → Step a a'
  | setReference {a a' : Arena} {i : InstanceId} {slot : Nat} {target : Option InstanceId} :
      a.setReference i slot target = .ok a' → Step a a'
  | deserialize {a a' : Arena} {data : List UInt8} {tops : List InstanceId} :
      deserialize data a = .ok (tops, a') → Step a a'

/-- The arenas that the arena operations reach from the empty arena. -/
inductive Reachable : Arena → Prop
  | empty : Reachable Arena.empty
  | step {a a' : Arena} : Reachable a → Step a a' → Reachable a'

/-- What every reachable arena satisfies. -/
structure Inv (a : Arena) : Prop where
  classes_sound : ∀ c ∈ a.classes, c.Sound
  instances_sound : ∀ i ∈ a.instances, i.Sound
  linked : ∀ i ∈ a.instances, ∃ c, a.cls i.cls = some c ∧ i.valueCount = c.propertyCount
  refs : ∀ (k : Nat) (hk : k < a.instances.size), ∀ t ∈ a.instances[k].record.tokens, t ≠ 0 →
    t - 1 < a.instances.size ∧ t - 1 ≠ k
  refCount_eq : ∀ (k : Nat) (hk : k < a.classes.size),
    a.classes[k].refCount = min maxU32 (a.instances.countP (·.cls.index = k))

variable {a a' : Arena}

theorem Inv.empty : Arena.empty.Inv := by
  refine ⟨?_, ?_, ?_, ?_, ?_⟩ <;> simp [Arena.empty]

@[simp] theorem cls_eq_some {c : ClassId} {r : ClassRecord} :
    a.cls c = some r ↔ ∃ h : c.index < a.classes.size, a.classes[c.index] = r := by
  simp [Arena.cls, Array.getElem?_eq_some_iff]

/-- An instance of an arena satisfying the invariant is linked to a class
below the class count. -/
theorem Inv.cls_lt (hi : a.Inv) {i : InstanceRecord} (hmem : i ∈ a.instances) : i.cls.index < a.classes.size := by
  obtain ⟨c, hc, -⟩ := hi.linked i hmem
  obtain ⟨h, -⟩ := cls_eq_some.1 hc
  exact h

/-! ## Adding classes and instances -/

theorem Inv.addClass (hi : a.Inv) {c : ClassRecord} (hc : c.Sound) (h0 : c.refCount = 0) :
    (a.addClass c).2.Inv := by
  simp only [Arena.addClass]
  refine ⟨?_, hi.instances_sound, ?_, hi.refs, ?_⟩
  · intro c' hc'
    rcases Array.mem_push.1 hc' with hc' | rfl
    · exact hi.classes_sound c' hc'
    · exact hc
  · intro i hmem
    obtain ⟨c', hc', hval⟩ := hi.linked i hmem
    obtain ⟨hlt, rfl⟩ := cls_eq_some.1 hc'
    exact ⟨_, cls_eq_some.2 ⟨by simp; omega, Array.getElem_push_lt hlt⟩, hval⟩
  · intro k hk
    simp only [Array.getElem_push]
    split
    · exact hi.refCount_eq k ‹_›
    · -- the new class: no instance is linked to it yet
      have hk' : k = a.classes.size := by simp at hk; omega
      subst hk'
      have hnone : a.instances.countP (·.cls.index = a.classes.size) = 0 := by
        rw [Array.countP_eq_zero]
        intro i hmem
        have := hi.cls_lt hmem
        simp only [decide_eq_true_eq]
        omega
      simp [hnone, h0]

theorem Inv.addInstance (hi : a.Inv) {cls : ClassId} {refSlots : UInt32} {i : InstanceId}
    (h : a.addInstance cls refSlots = .ok (i, a')) : a'.Inv := by
  unfold Arena.addInstance at h
  split at h
  · cases h
  rename_i record hrecord
  obtain ⟨inst, hinst, h⟩ := Except.bind_eq_ok.1 h
  cases h
  obtain ⟨hlt, rfl⟩ := cls_eq_some.1 hrecord
  obtain ⟨hsound, rfl, hval, htok⟩ := InstanceRecord.new_eq_ok hinst
  simp only [Array.set!_eq_setIfInBounds]
  -- each handle names the same class after the link, with one more reference on the class linked to
  have hclass : ∀ (c : ClassId) (r : ClassRecord), a.cls c = some r →
      ∃ r', Arena.cls ⟨a.classes.setIfInBounds inst.cls.index a.classes[inst.cls.index].addRef,
        a.instances.push inst⟩ c = some r' ∧ r'.propertyCount = r.propertyCount := by
    intro c r hc
    obtain ⟨hlt', rfl⟩ := cls_eq_some.1 hc
    refine ⟨_, cls_eq_some.2 ⟨by simpa using hlt', rfl⟩, ?_⟩
    rw [Array.getElem_setIfInBounds hlt']
    split <;> simp_all
  refine ⟨?_, ?_, ?_, ?_, ?_⟩
  · intro c hc
    rcases Array.mem_or_eq_of_mem_setIfInBounds hc with hc | rfl
    · exact hi.classes_sound c hc
    · exact (hi.classes_sound _ (Array.getElem_mem hlt)).addRef
  · intro i' hmem
    rcases Array.mem_push.1 hmem with hmem | rfl
    · exact hi.instances_sound i' hmem
    · exact hsound
  · intro i' hmem
    rcases Array.mem_push.1 hmem with hmem | rfl
    · obtain ⟨c, hc, hval'⟩ := hi.linked i' hmem
      obtain ⟨r', hr', hcount⟩ := hclass i'.cls c hc
      exact ⟨r', hr', hval'.trans hcount.symm⟩
    · obtain ⟨r', hr', hcount⟩ := hclass i'.cls _ (cls_eq_some.2 ⟨hlt, rfl⟩)
      exact ⟨r', hr', hval.trans (by simpa using hcount.symm)⟩
  · intro k hk t ht ht0
    simp only [Array.size_push]
    rw [Array.getElem_push] at ht
    split at ht
    · have := hi.refs k ‹_› t ht ht0
      omega
    · simp [htok] at ht
      omega
  · intro k hk
    have hk' : k < a.classes.size := by simpa using hk
    have hold := hi.refCount_eq k hk'
    rw [Array.getElem_setIfInBounds hk', Array.countP_push]
    by_cases heq : inst.cls.index = k
    · subst heq
      simp only [if_true, decide_true, ClassRecord.addRef, ClassRecord.refCount] at hold ⊢
      omega
    · simpa [heq] using hold

theorem instanceCount_addInstance {cls : ClassId} {refSlots : UInt32} {i : InstanceId}
    (h : a.addInstance cls refSlots = .ok (i, a')) : a'.instanceCount = a.instanceCount + 1 := by
  unfold Arena.addInstance at h
  split at h
  · cases h
  · obtain ⟨inst, -, h⟩ := Except.bind_eq_ok.1 h
    cases h
    simp [Arena.instanceCount]

/-! ## Changing an instance -/

/-- What a successful update did: the instance was there, and the record
the update made of it took its place. -/
theorem updateInstance_eq_ok {i : InstanceId} {f : InstanceRecord → Except StreamError InstanceRecord}
    (h : a.updateInstance i f = some (.ok a')) :
    ∃ (hk : i.index < a.instances.size) (r' : InstanceRecord), f a.instances[i.index] = .ok r' ∧
      a' = { a with instances := a.instances.setIfInBounds i.index r' } := by
  unfold updateInstance at h
  cases hinst : a.inst i with
  | none => simp [hinst] at h
  | some r =>
    simp only [hinst, Option.map_some, Option.some.injEq] at h
    obtain ⟨r', hr', rfl⟩ := Except.map_eq_ok.1 h
    obtain ⟨hk, rfl⟩ : ∃ hk : i.index < a.instances.size, a.instances[i.index] = r := by
      simpa [Arena.inst, Array.getElem?_eq_some_iff] using hinst
    exact ⟨hk, r', hr', by simp⟩

/-- Replacing instance `k` keeps the invariant when the new record is sound,
has the same class and number of values, and names other instances of the
arena. -/
theorem Inv.setInstance (hi : a.Inv) {k : Nat} (hk : k < a.instances.size) {r : InstanceRecord}
    (hs : r.Sound) (hcls : r.cls = a.instances[k].cls) (hval : r.valueCount = a.instances[k].valueCount)
    (hrefs : ∀ t ∈ r.record.tokens, t ≠ 0 → t - 1 < a.instances.size ∧ t - 1 ≠ k) :
    ({ a with instances := a.instances.setIfInBounds k r } : Arena).Inv := by
  refine ⟨hi.classes_sound, ?_, ?_, ?_, ?_⟩
  · intro i hmem
    rcases Array.mem_or_eq_of_mem_setIfInBounds hmem with hmem | rfl
    · exact hi.instances_sound i hmem
    · exact hs
  · intro i hmem
    rcases Array.mem_or_eq_of_mem_setIfInBounds hmem with hmem | rfl
    · exact hi.linked i hmem
    · obtain ⟨c, hc, hv⟩ := hi.linked _ (Array.getElem_mem hk)
      exact ⟨c, hcls ▸ hc, hval.trans hv⟩
  · intro j hj t ht ht0
    have hj' : j < a.instances.size := by simpa using hj
    simp only [Array.size_setIfInBounds]
    rw [Array.getElem_setIfInBounds hj'] at ht
    split at ht
    · subst_vars
      exact hrefs t ht ht0
    · exact hi.refs j hj' t ht ht0
  · intro j hj
    -- the class handle of the replaced instance is unchanged, so is every count
    have hbound := @Array.boole_getElem_le_countP InstanceRecord (fun x => decide (x.cls.index = j)) a.instances k hk
    rw [hi.refCount_eq j hj, Array.setIfInBounds_def, dif_pos hk, Array.countP_set hk, hcls]
    omega

/-- An update that keeps an instance sound, with its class, its number of
values and its tokens, keeps the invariant. -/
theorem Inv.update (hi : a.Inv) {i : InstanceId} {f : InstanceRecord → Except StreamError InstanceRecord}
    (h : a.updateInstance i f = some (.ok a'))
    (hf : ∀ r r', r.Sound → f r = .ok r' →
      r'.Sound ∧ r'.cls = r.cls ∧ r'.valueCount = r.valueCount ∧ r'.record.tokens = r.record.tokens) :
    a'.Inv := by
  obtain ⟨hk, r', hr', rfl⟩ := updateInstance_eq_ok h
  obtain ⟨hs, hcls, hval, htok⟩ := hf _ _ (hi.instances_sound _ (Array.getElem_mem hk)) hr'
  exact hi.setInstance hk hs hcls hval (htok ▸ hi.refs i.index hk)

/-- A property is set through the value slot the class names it by. -/
theorem setProperty_eq_ok {i : InstanceId} {name : String} {v : Option (List UInt8)}
    (h : a.setProperty i name v = .ok a') : ∃ index, a.updateInstance i (·.setValue index v) = some (.ok a') := by
  unfold setProperty at h
  split at h
  · cases h
  · split at h
    · cases h
    · rename_i index _
      split at h
      · rename_i result hresult
        exact ⟨index, hresult.trans (congrArg some h)⟩
      · cases h

/-- A reference is set only to an instance of the arena other than its
own. -/
theorem setReference_eq_ok {i : InstanceId} {slot : Nat} {target : Option InstanceId}
    (h : a.setReference i slot target = .ok a') :
    (∀ t, target = some t → t.index < a.instances.size ∧ t ≠ i) ∧
      a.updateInstance i (·.setExtRef slot target) = some (.ok a') := by
  unfold setReference at h
  cases target with
  | none =>
    simp only at h
    split at h
    · rename_i result hresult
      exact ⟨by simp, hresult.trans (congrArg some h)⟩
    · cases h
  | some t =>
    simp only at h
    by_cases hsize : a.instances.size ≤ t.index
    · simp [hsize] at h
    · by_cases heq : t = i
      · subst heq
        simp [hsize] at h
      · simp only [hsize, heq, if_false] at h
        split at h
        · rename_i result hresult
          refine ⟨?_, hresult.trans (congrArg some h)⟩
          intro t' ht'
          cases ht'
          exact ⟨by omega, heq⟩
        · cases h

theorem Inv.setReference (hi : a.Inv) {i : InstanceId} {slot : Nat} {target : Option InstanceId}
    (h : a.setReference i slot target = .ok a') : a'.Inv := by
  obtain ⟨htarget, h⟩ := setReference_eq_ok h
  obtain ⟨hk, r', hr', rfl⟩ := updateInstance_eq_ok h
  obtain ⟨hs, hcls, hval, -, htok⟩ := (hi.instances_sound _ (Array.getElem_mem hk)).setExtRef hr'
  refine hi.setInstance hk hs hcls hval fun t ht ht0 => ?_
  rw [htok] at ht
  rcases List.mem_or_eq_of_mem_set ht with ht | rfl
  · exact hi.refs i.index hk t ht ht0
  · cases target with
    | none => simp at ht0
    | some t' =>
      obtain ⟨hlt, hne⟩ := htarget t' rfl
      have hne' : t'.index ≠ i.index := fun h' => hne (by cases t'; cases i; simp_all)
      simp only [Option.map_some, Option.getD_some, InstanceId.token]
      omega

/-! ## Decoding a stream into the arena -/

/-- Appending what the decoder made keeps the invariant: sound classes
counting their decoded instances, and decoded instances linked to them whose
references name instances decoded before them. -/
theorem Inv.commit (hi : a.Inv) {classes : Array ClassRecord} {decoded : Array (Decoded classes.size)}
    (hclasses : ∀ c ∈ classes, c.Sound ∧ c.refCount = 0)
    (hdecoded : ∀ j (hj : j < decoded.size), DecodedAt classes a.classCount a.instanceCount j decoded[j]) :
    (a.commit (countReferences classes decoded).toList (decoded.toList.map (·.inst))).Inv := by
  have hnewClass : ∀ (c : Nat) (hc : c < classes.size), (countReferences classes decoded)[c] =
      ⟨{ classes[c].record with refCount := min maxU32 (decoded.toList.countP (·.classPos.val = c)) }⟩ :=
    fun c hc => countReferences_getElem classes decoded c hc (hclasses _ (Array.getElem_mem hc)).2
  have hdec : ∀ d ∈ decoded.toList, d.inst.Sound ∧ d.inst.cls = ⟨a.classCount + d.classPos⟩ ∧
      d.inst.valueCount = classes[d.classPos].propertyCount := by
    intro d hd
    obtain ⟨j, hj, rfl⟩ := List.getElem_of_mem hd
    have := hdecoded j (by simpa using hj)
    simp only [Array.getElem_toList]
    exact ⟨this.sound, this.cls_eq, this.valueCount_eq⟩
  -- the class a handle names after the append
  have hcls : ∀ (c : ClassId) (r : ClassRecord), a.cls c = some r →
      Arena.cls ⟨a.classes ++ (countReferences classes decoded).toList.toArray,
        a.instances ++ (decoded.toList.map (·.inst)).toArray⟩ c = some r := by
    intro c r hc
    obtain ⟨hlt, rfl⟩ := cls_eq_some.1 hc
    exact cls_eq_some.2 ⟨by simp; omega, Array.getElem_append_left hlt⟩
  simp only [Arena.commit]
  refine ⟨?_, ?_, ?_, ?_, ?_⟩
  · intro c hc
    rcases Array.mem_append.1 hc with hc | hc
    · exact hi.classes_sound c hc
    · obtain ⟨k, hk, rfl⟩ := Array.getElem_of_mem hc
      have hk' : k < classes.size := by simpa using hk
      simp only [List.getElem_toArray, Vector.getElem_toList, hnewClass k hk']
      exact (hclasses _ (Array.getElem_mem hk')).1.withRefCount _
  · intro i hmem
    rcases Array.mem_append.1 hmem with hmem | hmem
    · exact hi.instances_sound i hmem
    · obtain ⟨d, hd, rfl⟩ := List.mem_map.1 (List.mem_toArray.1 hmem)
      exact (hdec d hd).1
  · intro i hmem
    rcases Array.mem_append.1 hmem with hmem | hmem
    · obtain ⟨c, hc, hval⟩ := hi.linked i hmem
      exact ⟨c, hcls i.cls c hc, hval⟩
    · obtain ⟨d, hd, rfl⟩ := List.mem_map.1 (List.mem_toArray.1 hmem)
      obtain ⟨-, hclsEq, hval⟩ := hdec d hd
      refine ⟨_, cls_eq_some.2 ⟨?_, rfl⟩, ?_⟩
      · simp [hclsEq, Arena.classCount]
      · rw [Array.getElem_append_right (by simp [hclsEq, Arena.classCount])]
        simp [hclsEq, Arena.classCount, hnewClass, hval, ClassRecord.propertyCount, Record.fieldCount]
  · intro k hk t ht ht0
    simp only [Array.size_append, List.size_toArray, List.length_map, Array.length_toList] at hk ⊢
    by_cases hold : k < a.instances.size
    · rw [Array.getElem_append_left hold] at ht
      have := hi.refs k hold t ht ht0
      omega
    · rw [Array.getElem_append_right (by omega)] at ht
      simp only [List.getElem_toArray, List.getElem_map, Array.getElem_toList] at ht
      have := (hdecoded (k - a.instances.size) (by omega)).refs_before t ht ht0
      simp only [Arena.instanceCount] at this
      omega
  · intro k hk
    simp only [Array.size_append, List.size_toArray, Vector.length_toList] at hk
    have hnone : ∀ i ∈ (decoded.toList.map (·.inst)).toArray, a.classes.size ≤ i.cls.index := by
      intro i hmem
      obtain ⟨d, hd, rfl⟩ := List.mem_map.1 (List.mem_toArray.1 hmem)
      simp [(hdec d hd).2.1, Arena.classCount]
    rw [Array.countP_append]
    by_cases hold : k < a.classes.size
    · rw [Array.getElem_append_left hold, hi.refCount_eq k hold]
      have : (decoded.toList.map (·.inst)).toArray.countP (·.cls.index = k) = 0 := by
        rw [Array.countP_eq_zero]
        intro i hmem
        have := hnone i hmem
        simp only [decide_eq_true_eq]
        omega
      rw [this, Nat.add_zero]
    · -- a decoded class: it counts the decoded instances at its position
      have hc : k - a.classes.size < classes.size := by omega
      have hzero : a.instances.countP (·.cls.index = k) = 0 := by
        rw [Array.countP_eq_zero]
        intro i hmem
        have := hi.cls_lt hmem
        simp only [decide_eq_true_eq]
        omega
      rw [Array.getElem_append_right (by omega), hzero, Nat.zero_add]
      simp only [List.getElem_toArray, Vector.getElem_toList, hnewClass _ hc, ClassRecord.refCount,
        List.countP_toArray, List.countP_map]
      congr 1
      apply List.countP_congr
      intro d hd
      simp only [Function.comp, (hdec d hd).2.1, Arena.classCount, decide_eq_true_eq]
      omega

theorem Inv.deserialize (hi : a.Inv) {data : List UInt8} {tops : List InstanceId}
    (h : deserialize data a = .ok (tops, a')) : a'.Inv := by
  obtain ⟨classes, entries, refs, r, decoded, marks, r', hfront, hread, -, -, rfl⟩ := deserialize_eq_ok h
  exact hi.commit (readFront_sound hfront)
    (readInstances_decodedAt classes refs _ _ _ 0 _ r #[] _ hread rfl (by simp))

/-! ## Every reachable arena -/

/-- Every operation keeps the invariant. -/
theorem Inv.step (hi : a.Inv) (h : Step a a') : a'.Inv := by
  cases h with
  | addClass hnew =>
    obtain ⟨hs, h0, -⟩ := ClassRecord.new_eq_ok hnew
    exact hi.addClass hs h0
  | addInstance h => exact hi.addInstance h
  | setProperty h =>
    obtain ⟨index, h⟩ := setProperty_eq_ok h
    exact hi.update h fun _ _ hs hr => hs.setValue hr
  | setValue h => exact hi.update h fun _ _ hs hr => hs.setValue hr
  | setHostName h => exact hi.update h fun _ _ hs hr => hs.setHostName hr
  | setNamespace h => exact hi.update h fun _ _ hs hr => hs.setNamespace hr
  | setReference h => exact hi.setReference h
  | deserialize h => exact hi.deserialize h

/-- The invariant holds in every reachable arena; the induction is on the
calls that reached it. -/
theorem Reachable.inv (h : a.Reachable) : a.Inv := by
  induction h with
  | empty => exact Inv.empty
  | step _ hstep ih => exact ih.step hstep

end Arena

/-- A record whose buffer agrees with its header: the size field is the
buffer's length, the free-bytes field is at most that, and every string slot
that is not null lies between the end of the fixed region and the end of the
bytes in use. -/
def Record.Consistent (r : Record) : Prop :=
  r.totalField = r.bytes.length ∧ r.freeField ≤ r.totalField ∧ r.SlotsInHeap

theorem Record.Sound.consistent {r : Record} (h : r.Sound) : r.Consistent := by
  have hlt : r.totalSize < 2 ^ 64 := by
    have := h.total_le
    simp only [maxU64] at this
    omega
  refine ⟨by rw [Record.totalField_eq hlt, Record.length_bytes], ?_, h.slotsInHeap⟩
  rw [Record.totalField_eq hlt, Record.freeField_eq hlt]
  simp [Record.totalSize]

namespace Arena

variable {a : Arena}

/-- A well-formed arena: every instance is linked to a class of the arena
and has one value per property of it; every reference slot that is not
empty names an instance of the arena other than its own; every record's
buffer agrees with its header; and every class counts the instances linked
to it, up to the largest 32-bit value. -/
structure WellFormed (a : Arena) : Prop where
  linked : ∀ i ∈ a.instances, ∃ c, a.cls i.cls = some c ∧ i.valueCount = c.propertyCount
  refs : ∀ (k : Nat) (hk : k < a.instances.size) (slot : Nat) (t : InstanceId),
    a.instances[k].extRef slot = some t → t.index < a.instanceCount ∧ t.index ≠ k
  classes_consistent : ∀ c ∈ a.classes, c.record.Consistent
  instances_consistent : ∀ i ∈ a.instances, i.record.Consistent
  refCount_eq : ∀ (k : Nat) (hk : k < a.classes.size),
    a.classes[k].refCount = min maxU32 (a.instances.countP (·.cls.index = k))

/-- A slot holding a token names the instance one below it; an empty slot,
or one past the slots, names none. -/
theorem InstanceRecord.extRef_eq_some {i : InstanceRecord} {slot : Nat} {t : InstanceId}
    (h : i.extRef slot = some t) : t.index + 1 ∈ i.record.tokens := by
  simp only [InstanceRecord.extRef, Record.token] at h
  rcases htok : i.record.tokens[slot]? with _ | tok
  · simp [List.getD_eq_getElem?_getD, htok, InstanceId.ofToken?] at h
  · rw [List.getD_eq_getElem?_getD, htok, Option.getD_some] at h
    cases tok with
    | zero => simp [InstanceId.ofToken?] at h
    | succ n =>
      simp only [InstanceId.ofToken?, Option.some.injEq] at h
      subst h
      exact List.mem_of_getElem? htok

/-- **Every reachable arena is well formed.** Whatever calls of the arena
operations reached it, each succeeding or failing: every instance is linked
to a class of the arena with as many properties as it has values; every
reference slot that is not empty names an instance of the arena other than
its own; every record's size field is its buffer's length, its free-bytes
field is at most that, and its strings lie in its heap; and every class
counts the instances linked to it, up to the largest 32-bit value. -/
theorem Reachable.wellFormed (h : a.Reachable) : a.WellFormed := by
  have hi := h.inv
  refine ⟨hi.linked, ?_, fun c hc => (hi.classes_sound c hc).record.consistent,
    fun i hi' => (hi.instances_sound i hi').record.consistent, hi.refCount_eq⟩
  intro k hk slot t ht
  have := hi.refs k hk (t.index + 1) (InstanceRecord.extRef_eq_some ht) (by omega)
  simp only [Nat.add_sub_cancel] at this
  exact this

/-- An arena with one class and one instance of it, with a reference slot,
is reachable and well formed. -/
theorem reachable_one_instance_wellFormed :
    ∃ a : Arena, a.Reachable ∧ a.instanceCount = 1 ∧ a.WellFormed := by
  obtain ⟨a, ha⟩ : ∃ a, (do
      let c ← ClassRecord.new "Disk" "root/cimv2" ["Size"]
      let added ← (Arena.empty.addClass c).2.addInstance ⟨0⟩ 1
      pure added.2) = Except.ok a := ⟨_, rfl⟩
  obtain ⟨c, hc, ha⟩ := Except.bind_eq_ok.1 ha
  obtain ⟨⟨i, a₁⟩, hadd, ha⟩ := Except.bind_eq_ok.1 ha
  dsimp only at ha
  cases ha
  have hr : a.Reachable := .step (.step .empty (.addClass Arena.empty hc)) (.addInstance hadd)
  refine ⟨a, hr, ?_, Reachable.wellFormed hr⟩
  rw [instanceCount_addInstance hadd]
  rfl

end Arena

end CimBroker.Stream

import Mathlib
import CimBroker.Proofs.Stream.DecodedGraph
import CimBroker.Proofs.Stream.Acyclic

/-!
# Writing a decoded graph again

A server that echoes object streams reads each one into the empty arena and
writes what it read from the top-level instances. This module says when
that succeeds and what the new stream holds.

The writer refuses two things: an instance first met through a chain of more
than `maxReferenceDepth` references, and counts beyond `maxU32`. A decoded
graph has no cycle and every instance is reachable from the top-level ones
(`DecodedGraph`), so its walk covers it exactly once, and its counts are
bounded by the stream's length: each instance and each reference took a
slot's eight bytes of it, so a stream shorter than 32 GiB has fewer than
`2 ^ 32` of them. What is left is the depth, which the decoder does not
bound.

## Main results

* `serialize_ok_of_reachable` — a walk that reaches every instance of an
  arena is written when the arena's counts fit.
* `deserialize_empty_of_serialize` — a written stream, read into the empty
  arena, gives copies of the written instances.
* `reencode_graphIso` — a decoded graph whose reference chains from the
  top-level instances are at most `maxReferenceDepth` long is written again,
  and reading that stream gives an isomorphic graph with the same top-level
  instances.
-/

namespace CimBroker.Stream

/-! ## Copies of a graph -/

/-- A copy references the images of what its original references, in slot
order. -/
theorem InstanceRecord.Copy.references {φ : InstanceId → InstanceId} {ix iy : InstanceRecord}
    (h : ix.Copy φ iy) : iy.references = ix.references.map φ := by
  simp only [InstanceRecord.references, h.extRefCount, List.map_filterMap]
  exact List.filterMap_congr fun s _ => h.extRef s

/-- Arena `b` holds an isomorphic copy of the instances of arena `a` under the
renaming `φ`: as many instances, distinct instances renamed apart, each
copied with its references renamed and its class of the same shape, and two
copies sharing a class exactly when their originals do. -/
structure Arena.GraphIso (a b : Arena) (φ : InstanceId → InstanceId) : Prop where
  count : b.instanceCount = a.instanceCount
  injective : ∀ x y, (a.inst x).isSome → (a.inst y).isSome → φ x = φ y → x = y
  copies : ∀ x, (a.inst x).isSome → a.Copies b φ x
  shared : ∀ x y, (a.inst x).isSome → (a.inst y).isSome →
    ((b.inst (φ x)).map (·.cls) = (b.inst (φ y)).map (·.cls) ↔ (a.inst x).map (·.cls) = (a.inst y).map (·.cls))

/-- Summing over the handles of an arena's instances sums over its records. -/
theorem Arena.sum_range_references (a : Arena) :
    ((List.range a.instanceCount).map fun p => (a.references ⟨p⟩).length).sum =
      (a.instances.toList.map (·.references.length)).sum := by
  congr 1
  apply List.ext_getElem (by simp [Arena.instanceCount])
  intro p h₁ h₂
  have hp : p < a.instances.size := by simpa using h₂
  simp [Arena.references, Arena.inst, Array.getElem?_eq_getElem hp]

/-- In an arena reachable through its operations, every reference names an
existing instance. -/
theorem Arena.Inv.isSome_of_mem_references {a : Arena} (ha : a.Inv) {x y : InstanceId} {r : InstanceRecord}
    (hr : a.inst x = some r) (hy : y ∈ r.references) : (a.inst y).isSome := by
  obtain ⟨hx, rfl⟩ := Array.getElem?_eq_some_iff.1 hr
  have hlt := (ha.refs x.index hx y.token (InstanceRecord.mem_references_iff.1 hy) (by simp [InstanceId.token])).1
  simp only [InstanceId.token, Nat.add_sub_cancel] at hlt
  simp [Arena.inst, Array.getElem?_eq_getElem hlt]

/-- What is reachable from existing instances exists. -/
theorem Arena.ReachableFrom.isSome {a : Arena} {tops : List InstanceId} (ha : a.Inv)
    (htops : ∀ x ∈ tops, (a.inst x).isSome) {x : InstanceId} (hx : a.ReachableFrom tops x) : (a.inst x).isSome := by
  induction hx with
  | top h => exact htops _ h
  | ref _ hr hy => exact ha.isSome_of_mem_references hr hy

/-! ## Walks that reach every instance -/

section Walk

variable {a : Arena} {tops : List InstanceId} {t : Tables}

/-- **A walk that reaches every instance lists each once**: its order is a
permutation of the handles of the arena's instances. -/
theorem instanceOrder_perm (ht : Tables.ofTops a tops = .ok t)
    (hall : ∀ x, a.ReachableFrom tops x ↔ (a.inst x).isSome) :
    t.instanceOrder.toList.Perm ((List.range a.instanceCount).map (⟨·⟩)) := by
  have hinv := (ofTops_inv ht).1
  refine (List.perm_ext_iff_of_nodup hinv.nodup (List.nodup_range.map fun _ _ h => by cases h; rfl)).2
    fun x => ?_
  rw [Array.mem_toList_iff, mem_ofTops_iff ht, hall, List.mem_map]
  constructor
  · intro hx
    exact ⟨x.index, List.mem_range.2 (by simpa [Arena.inst, Arena.instanceCount] using hx), rfl⟩
  · rintro ⟨p, hp, rfl⟩
    simpa [Arena.inst, Arena.instanceCount] using List.mem_range.1 hp

/-- **A walk that reaches every instance is written** when the arena has at
most `maxU32` instances and references: the order lists every instance
once, and the reference table has at most one entry per reference. -/
theorem serialize_ok_of_reachable (ha : a.Inv) (ht : Tables.ofTops a tops = .ok t)
    (hall : ∀ x, a.ReachableFrom tops x ↔ (a.inst x).isSome) (hcount : a.instanceCount ≤ maxU32)
    (hrefs : (a.instances.toList.map (·.references.length)).sum ≤ maxU32) :
    ∃ bytes, serialize a tops = .ok bytes := by
  have hperm := instanceOrder_perm ht hall
  have hsize : t.instanceOrder.size = a.instanceCount := by simpa using hperm.length_eq
  refine serialize_ok ha ht (hsize ▸ hcount) ?_
  calc t.referenceResolution.size ≤ (t.instanceOrder.toList.map fun y => (a.references y).length).sum :=
        (ofTops_appends ht).1
    _ = ((List.range a.instanceCount).map fun p => (a.references ⟨p⟩).length).sum := by
        rw [(hperm.map _).sum_nat, List.map_map]
        rfl
    _ = (a.instances.toList.map (·.references.length)).sum := a.sum_range_references
    _ ≤ maxU32 := hrefs

end Walk

/-! ## Reading a written stream into the empty arena -/

section ReadBack

variable {A : Arena} {tops : List InstanceId}

/-- **A written stream read into the empty arena** holds one instance per
instance of the walk, and the instance at the image of each written
instance copies it; two copies share a class exactly when their originals
do; and the top-level instances returned are the images of the written
instances that no written instance references. -/
theorem deserialize_empty_of_serialize (hA : A.Inv) (hcount : A.instanceCount ≤ maxU64)
    {bytes : List UInt8} (hser : serialize A tops = .ok bytes) :
    ∃ t tops' A', Tables.ofTops A tops = .ok t ∧ deserialize bytes Arena.empty = .ok (tops', A') ∧
      A'.instanceCount = t.instanceOrder.size ∧
      (∀ x ∈ t.instanceOrder, A.Copies A' (t.image 0) x) ∧
      (∀ x ∈ t.instanceOrder, ∀ y ∈ t.instanceOrder,
        ((A'.inst (t.image 0 x)).map (·.cls) = (A'.inst (t.image 0 y)).map (·.cls) ↔
          (A.inst x).map (·.cls) = (A.inst y).map (·.cls))) ∧
      tops' = (t.instanceOrder.toList.filter fun x => t.instanceOrder.toList.all fun y => x ∉ A.references y).map
        (t.image 0) := by
  obtain ⟨t, classes, recs, decoded, ht, hclasses, hrecs, hdes⟩ := deserialize_written hA hcount hser Arena.empty
  have hinv := (ofTops_inv ht).1
  have hrl : recs.length = t.instanceOrder.size := by simpa using (congrArg List.length hrecs).symm
  refine ⟨t, _, _, ht, hdes, ?count, ?copies, ?shared, tops_written hinv hrecs _⟩
  case count =>
    simp [Arena.instanceCount, Arena.commit, Arena.empty, hinv.size_classResolution, hrl]
  case copies =>
    intro x hx
    obtain ⟨ix, hix, hinst⟩ := inst_image_written hinv hrecs Arena.empty _ hx
    have hmem := Arena.mem_of_inst_eq_some hix
    obtain ⟨cx, hcx, -⟩ := hA.linked ix hmem
    obtain ⟨n, hcls⟩ := cls_commit_written hclasses Arena.empty decoded _
      (show (t.classTable[t.classTable.toList.idxOf ix.cls]?).bind A.cls = some cx by
        rw [hinv.getElem?_idxOf_classTable hx hix, Option.bind_some, hcx])
    refine ⟨ix, _, cx, _, hix, hinst, hcx, hcls, ?_, ?_⟩
    · -- the class is rebuilt from the same record, so it reads the same texts
      have hsound := hA.classes_sound cx (Array.mem_of_getElem? hcx)
      exact ClassRecord.sameShape_of_text rfl
        (Record.text_of_layout (by rfl) (by rfl) (by rfl) hsound.record.slotsInHeap)
    · exact (hA.instances_sound ix hmem).copy_rebuilt _ (by simp [Tables.resolvedToken, shiftToken])
        (fun tok h0 => t.ofToken?_shiftToken_resolvedToken _ h0)
  case shared =>
    -- each copy is linked to the class at its original's class-table index, and those indices differ
    intro x hx y hy
    obtain ⟨ix, hix, hinstx⟩ := inst_image_written hinv hrecs Arena.empty
      (countReferences (classes.map ClassRecord.rebuilt).toArray decoded).toList hx
    obtain ⟨iy, hiy, hinsty⟩ := inst_image_written hinv hrecs Arena.empty
      (countReferences (classes.map ClassRecord.rebuilt).toArray decoded).toList hy
    have himage : ∀ z, t.image 0 z = t.image Arena.empty.instanceCount z := fun _ => rfl
    rw [himage x, himage y, hinstx, hinsty, hix, hiy]
    simp only [Option.map_some, Option.some.injEq, InstanceRecord.rebuilt, ClassId.mk.injEq,
      Nat.add_left_cancel_iff]
    exact List.idxOf_inj (hinv.cls_mem_classTable hx hix)

end ReadBack

/-! ## Writing a decoded graph again -/

section Reencode

variable {data : List UInt8} {tops : List InstanceId} {A : Arena}

/-- The walk of a decoded graph from its top-level instances lists exactly
its instances. -/
theorem mem_ofTops_of_deserialize (h : deserialize data Arena.empty = .ok (tops, A)) {t : Tables}
    (ht : Tables.ofTops A tops = .ok t) (x : InstanceId) : x ∈ t.instanceOrder ↔ (A.inst x).isSome :=
  (mem_ofTops_iff ht x).trans (deserialize_empty_reachableFrom_iff h x)

/-- In a decoded graph, the written instances that no written instance
references are the top-level ones, in the order given. -/
theorem filter_unreferenced_of_deserialize (h : deserialize data Arena.empty = .ok (tops, A)) {t : Tables}
    (ht : Tables.ofTops A tops = .ok t) :
    t.instanceOrder.toList.filter (fun x => t.instanceOrder.toList.all fun y => x ∉ A.references y) = tops := by
  have htops := mem_deserialize_empty_tops_iff h
  have hmem := mem_ofTops_of_deserialize h ht
  rw [← filter_mem_ofTops ht (deserialize_empty_eq_ok h).2.1 fun x hx => ((htops x).1 hx).2]
  apply List.filter_congr
  intro x hx
  have hx' := (hmem x).1 (Array.mem_toList_iff.1 hx)
  rw [Bool.eq_iff_iff, List.all_eq_true, decide_eq_true_iff, htops x]
  constructor
  · -- an instance outside the walk does not exist, so it references nothing
    intro hunref
    refine ⟨hx', fun w hw => ?_⟩
    obtain ⟨i, hw', -⟩ := Arena.exists_inst_of_mem_references hw
    have hwo : w ∈ t.instanceOrder.toList := Array.mem_toList_iff.2 ((hmem w).2 (by simp [hw']))
    exact absurd hw (by simpa using hunref w hwo)
  · rintro ⟨-, hunref⟩ y -
    simpa using hunref y

/-- **A decoded graph within the depth budget is written again, as an
isomorphic copy.** Reading a stream shorter than 32 GiB into the empty arena,
and writing what was read from the top-level instances, succeeds when no
chain of references from a top-level instance is longer than
`maxReferenceDepth`; reading the new stream gives an isomorphic graph whose
top-level instances are the images of the old ones, in the same order. -/
theorem reencode_graphIso (h : deserialize data Arena.empty = .ok (tops, A)) (hsize : data.length < 2 ^ 35)
    (hdepth : ∀ x ∈ tops, ∀ n, A.RefPath x n → n ≤ maxReferenceDepth) :
    ∃ bytes tops' A' φ, serialize A tops = .ok bytes ∧ deserialize bytes Arena.empty = .ok (tops', A') ∧
      A.GraphIso A' φ ∧ tops' = tops.map φ := by
  have hA : A.Inv := (Arena.Reachable.step .empty (.deserialize h)).inv
  have hall := deserialize_empty_reachableFrom_iff h
  have htops := mem_deserialize_empty_tops_iff h
  -- the walk stays within the budget, and the stream's length bounds the counts
  obtain ⟨t, ht⟩ := ofTops_ok_of_depth (deserialize_empty_descends h) fun x hx =>
    ⟨((htops x).1 hx).1, hdepth x hx⟩
  have hbytes := (deserialize_empty_eq_ok h).2.2.2
  have hcount : A.instanceCount ≤ maxU32 := by
    simp only [slotSize, maxU32] at hbytes ⊢
    omega
  have hrefs : (A.instances.toList.map (·.references.length)).sum ≤ maxU32 := by
    simp only [slotSize, maxU32] at hbytes ⊢
    omega
  obtain ⟨bytes, hser⟩ := serialize_ok_of_reachable hA ht hall hcount hrefs
  obtain ⟨t', tops', A', ht', hdes, hcount', hcopies, hshared, htops'⟩ :=
    deserialize_empty_of_serialize hA (by simp only [maxU32, maxU64] at hcount ⊢; omega) hser
  rw [ht, Except.ok.injEq] at ht'
  subst ht'
  have hmem := mem_ofTops_of_deserialize h ht
  refine ⟨bytes, tops', A', t.image 0, hser, hdes, ⟨?_, ?_, fun x hx => hcopies x ((hmem x).2 hx),
    fun x y hx hy => hshared x ((hmem x).2 hx) y ((hmem y).2 hy)⟩, ?_⟩
  · rw [hcount']
    simpa using (instanceOrder_perm ht hall).length_eq
  · -- the image of a written instance is its position in the order
    intro x y hx hy hxy
    simp only [Tables.image, InstanceId.mk.injEq, Nat.zero_add] at hxy
    exact (List.idxOf_inj (Array.mem_toList_iff.2 ((hmem x).2 hx))).1 hxy
  · rw [htops', filter_unreferenced_of_deserialize h ht]

end Reencode

end CimBroker.Stream

import CimBroker.Proofs.Stream.Depth
import CimBroker.Proofs.Stream.DecodeFailure

/-!
# The instance graph a stream decodes to

Reading a stream into the empty arena builds a graph of instances whose
shape the decoder's checks fix, whatever bytes it was given:

* every reference of a decoded instance names an instance decoded before it
  (`deserialize_empty_descends`), so no chain of references is longer than
  the position it starts from;
* the top-level instances returned are, without repeats and in stream order,
  exactly the decoded instances that no decoded instance references
  (`mem_deserialize_empty_tops_iff`);
* every decoded instance is reachable from them
  (`deserialize_empty_reachableFrom_iff`): an instance that is not top-level
  is referenced by a later one, and following the referrers up ends at a
  top-level instance;
* each instance block holds its reference slots, so the stream's length
  bounds the number of instances and of references
  (`deserialize_empty_eq_ok`), and the length of every chain of references
  from a top-level instance (`refPath_le_of_deserialize_empty`).

All of it rests on one description of the instance pass,
`readInstances_eq_ok`.
-/

namespace CimBroker.Stream

/-! ## References and tokens -/

/-- An instance references `y` exactly when one of its reference slots holds
`y`'s token. -/
theorem InstanceRecord.mem_references_iff {i : InstanceRecord} {y : InstanceId} :
    y ∈ i.references ↔ y.token ∈ i.record.tokens := by
  constructor
  · intro hy
    obtain ⟨s, -, hs⟩ := List.mem_filterMap.1 hy
    exact Arena.InstanceRecord.extRef_eq_some hs
  · intro hy
    simpa [InstanceId.token] using InstanceRecord.mem_references_of_mem_tokens hy (by simp [InstanceId.token])

/-- Only an existing instance references anything. -/
theorem Arena.exists_inst_of_mem_references {a : Arena} {w x : InstanceId} (hw : x ∈ a.references w) :
    ∃ i, a.inst w = some i ∧ x ∈ i.references := by
  cases hw' : a.inst w with
  | none => simp [Arena.references, hw'] at hw
  | some i => exact ⟨i, rfl, by rwa [Arena.references_of_inst hw'] at hw⟩

/-- An instance has at most one reference per reference slot. -/
theorem InstanceRecord.length_references_le (i : InstanceRecord) : i.references.length ≤ i.record.tokens.length := by
  simpa [InstanceRecord.references, InstanceRecord.extRefCount, Record.extRefCount] using
    List.length_filterMap_le i.extRef (List.range i.extRefCount)

/-- A resolved token names position `p` exactly when its shifted form is the
token of the instance `base` past `p`. -/
theorem mem_map_shiftToken {us : List Nat} {base p : Nat} :
    base + p + 1 ∈ us.map (shiftToken base) ↔ p + 1 ∈ us := by
  constructor
  · intro h
    obtain ⟨u, hu, hshift⟩ := List.mem_map.1 h
    by_cases h0 : u = 0
    · simp [shiftToken, h0] at hshift
    · simp only [shiftToken, h0, if_false] at hshift
      rwa [show p + 1 = u by omega]
  · intro h
    exact List.mem_map.2 ⟨p + 1, h, by simp [shiftToken]; omega⟩

/-! ## The instance pass -/

section Pass

variable {classes : Array ClassRecord} {refs : Array Entry} {classBase base n : Nat}

/-- One step of the instance pass, taken apart: a block is read and checked
as an instance of the class its entry names, its tokens resolve, and the
pass goes on with the instance pushed and the positions its tokens name
claimed. -/
theorem readInstances_cons_eq_ok {e : Entry} {es : List Entry} {position : Nat}
    {h : position + (e :: es).length = n} {r r' : Reader} {acc decoded : Array (Decoded classes.size)}
    {marks marks' : Vector Nat n}
    (hread : readInstances classes refs classBase base (e :: es) position h r acc marks = .ok (decoded, marks', r')) :
    ∃ bytes r₁ record i us, ∃ hk : e.index < classes.size,
      r.block = .ok (bytes, r₁) ∧ Record.ofWire bytes instanceSlack .instanceRecord = .ok record ∧
      InstanceRecord.ofRecord record ⟨classBase + e.index⟩ classes[e.index] = .ok i ∧
      i.record.tokens.mapM (resolveToken refs position) = .ok us ∧
      readInstances classes refs classBase base es (position + 1) (by simp at h; omega) r₁
        (acc.push ⟨{ i with record := { i.record with tokens := us.map (shiftToken base) } }, ⟨e.index, hk⟩⟩)
        (claim marks us) = .ok (decoded, marks', r') := by
  simp only [readInstances] at hread
  obtain ⟨⟨bytes, r₁⟩, hblock, hread⟩ := Except.bind_eq_ok.1 hread
  dsimp only at hread
  obtain ⟨record, hwire, hread⟩ := Except.bind_eq_ok.1 hread
  split at hread
  · rename_i hk
    obtain ⟨i, hi, hread⟩ := Except.bind_eq_ok.1 hread
    obtain ⟨⟨i', marks₁⟩, hres, hread⟩ := Except.bind_eq_ok.1 hread
    rw [resolveSlots_eq] at hres
    obtain ⟨us, hus, hres⟩ := Except.map_eq_ok.1 hres
    cases hres
    exact ⟨bytes, r₁, record, i, us, hk, hblock, hwire, hi, hus, hread⟩
  · cases hread

/-- **The instance pass.** It decodes one instance per entry, after those
already decoded; a position ends up claimed exactly when it was claimed
before or a newly decoded instance references the instance at that
position; and each new instance took a block of at least a slot's bytes
plus a slot's bytes per reference. The induction is on the entries still to
read. -/
theorem readInstances_eq_ok : ∀ (entries : List Entry) (position : Nat) (h : position + entries.length = n)
    (r : Reader) (acc : Array (Decoded classes.size)) (marks : Vector Nat n) {decoded : Array (Decoded classes.size)}
    {marks' : Vector Nat n} {r' : Reader},
    readInstances classes refs classBase base entries position h r acc marks = .ok (decoded, marks', r') →
    ∃ new, decoded.toList = acc.toList ++ new ∧ new.length = entries.length ∧
      (∀ p (hp : p < n), marks'[p] =
        if ∃ d ∈ new, (⟨base + p⟩ : InstanceId) ∈ d.inst.references then 0 else marks[p]) ∧
      slotSize * (new.map fun d => d.inst.references.length).sum + slotSize * new.length + r'.remaining ≤
        r.remaining
  | [], _, _, r, acc, marks, _, _, _, hread => by
    cases hread
    exact ⟨[], by simp, rfl, by simp, by simp⟩
  | e :: es, position, h, r, acc, marks, _, _, _, hread => by
    obtain ⟨bytes, r₁, record, i, us, hk, hblock, hwire, hi, hus, hread⟩ := readInstances_cons_eq_ok hread
    obtain ⟨new, hnew, hlen, hmarks, hsize⟩ := readInstances_eq_ok es _ _ r₁ _ _ hread
    let d : Decoded classes.size :=
      ⟨{ i with record := { i.record with tokens := us.map (shiftToken base) } }, ⟨e.index, hk⟩⟩
    -- the block holds the record, whose fixed part holds one slot per token
    have hrec : slotSize * d.inst.references.length ≤ bytes.length := by
      obtain ⟨-, -, -, hinUse, -⟩ := Record.ofWire_eq_ok hwire
      obtain ⟨rfl, -⟩ := InstanceRecord.ofRecord_eq_ok.1 hi
      have htok : d.inst.record.tokens.length = record.tokens.length := by
        simp [d, length_of_mapM_eq_ok hus]
      have hfixed : slotSize * record.tokens.length ≤ bytes.length := by
        rw [← hinUse, Record.inUse, Record.fixedSize, Nat.mul_add]
        omega
      calc slotSize * d.inst.references.length ≤ slotSize * d.inst.record.tokens.length :=
            Nat.mul_le_mul_left _ d.inst.length_references_le
        _ ≤ bytes.length := htok ▸ hfixed
    refine ⟨d :: new, by simp [hnew, d], by simp [hlen], fun p hp => ?_, ?_⟩
    · -- the step claims `p` exactly when the new instance references the instance at `p`
      have hclaim : (p + 1 ∈ us) ↔ (⟨base + p⟩ : InstanceId) ∈ d.inst.references := by
        rw [InstanceRecord.mem_references_iff, ← mem_map_shiftToken]
        rfl
      rw [hmarks p hp, getElem_claim us marks p hp]
      by_cases hd : (⟨base + p⟩ : InstanceId) ∈ d.inst.references
      · simp [hd, hclaim.2 hd]
      · by_cases hrest : ∃ d ∈ new, (⟨base + p⟩ : InstanceId) ∈ d.inst.references
        · simp [hrest]
        · simp [hd, hrest, hclaim]
    · have := Reader.block_eq_ok hblock
      simp only [List.map_cons, List.sum_cons, List.length_cons]
      simp only [slotSize] at *
      omega

end Pass

/-- The class-resolution entries at the front of a stream carry no token
zero. -/
theorem readFront_token_ne_zero {data : List UInt8} {classes : Array ClassRecord} {entries refs : Array Entry}
    {r : Reader} (h : readFront data = .ok (classes, entries, refs, r)) : ∀ e ∈ entries, e.token ≠ 0 := by
  simp only [readFront] at h
  obtain ⟨r₁, -, h⟩ := Except.bind_eq_ok.1 h
  obtain ⟨⟨count, r₂⟩, -, h⟩ := Except.bind_eq_ok.1 h
  obtain ⟨⟨cs, r₃⟩, -, h⟩ := Except.bind_eq_ok.1 h
  obtain ⟨⟨es, r₄⟩, -, h⟩ := Except.bind_eq_ok.1 h
  split at h
  · cases h
  · rename_i hzero
    obtain ⟨⟨rs, r₅⟩, -, h⟩ := Except.bind_eq_ok.1 h
    cases h
    intro e he h0
    exact hzero (Array.any_eq_true.2 ⟨_, (Array.mem_iff_getElem.1 he).choose_spec.1, by
      rw [(Array.mem_iff_getElem.1 he).choose_spec.2, h0]; rfl⟩)

/-- The positions of the marks still set, listed by a scan, are those below
the length whose mark is not zero. -/
theorem mem_filter_zipIdx {l : List Nat} {p : Nat} :
    p ∈ (l.zipIdx.filter (·.1 ≠ 0)).map Prod.snd ↔ ∃ h : p < l.length, l[p] ≠ 0 := by
  simp only [List.mem_map, List.mem_filter, List.mem_zipIdx_iff_getElem?, List.getElem?_eq_some_iff]
  constructor
  · rintro ⟨⟨v, q⟩, ⟨⟨hq, hv⟩, hne⟩, rfl⟩
    exact ⟨hq, by simpa [hv] using hne⟩
  · rintro ⟨hp, hne⟩
    exact ⟨(l[p], p), ⟨⟨hp, rfl⟩, by simpa using hne⟩, rfl⟩

/-- A scan lists each position once. -/
theorem nodup_filter_zipIdx (l : List Nat) : ((l.zipIdx.filter (·.1 ≠ 0)).map Prod.snd).Nodup :=
  ((List.filter_sublist).map Prod.snd).nodup (by rw [List.zipIdx_map_snd]; exact List.nodup_range')

/-! ## Reading into the empty arena -/

section Empty

variable {data : List UInt8} {tops : List InstanceId} {A : Arena}

/-- **A decode into the empty arena, as a graph.** Each decoded instance
references only instances before it; the top-level instances are, without
repeats, those no decoded instance references; and the stream holds a slot's
bytes per instance and per reference. -/
theorem deserialize_empty_eq_ok (h : deserialize data Arena.empty = .ok (tops, A)) :
    (∀ p (hp : p < A.instances.size), ∀ y ∈ A.instances[p].references, y.index < p) ∧
      tops.Nodup ∧ (∀ x, x ∈ tops ↔ x.index < A.instanceCount ∧ ∀ i ∈ A.instances, x ∉ i.references) ∧
      slotSize * ((A.instances.toList.map (·.references.length)).sum + A.instanceCount) ≤ data.length := by
  obtain ⟨classes, entries, refs, r, decoded, marks, r', hfront, hread, hrest, htops, hA⟩ := deserialize_eq_ok h
  obtain ⟨new, hnew, hlen, hmarks, hsize⟩ := readInstances_eq_ok _ _ _ _ _ _ hread
  simp only [List.nil_append] at hnew
  subst hnew
  have hinst : A.instances = (decoded.toList.map (·.inst)).toArray := by
    rw [hA]
    simp [Arena.commit, Arena.empty]
  have hcount : A.instanceCount = decoded.size := by simp [Arena.instanceCount, hinst]
  have hsz : decoded.size = entries.size := by simpa using hlen
  have hdec := readInstances_decodedAt classes refs _ _ entries.toList 0 _ r #[] _ hread (by simp) (by simp)
  -- the top-level instances are the positions whose marks are still set
  have htops' : tops = ((marks.toList.zipIdx.filter (·.1 ≠ 0)).map Prod.snd).map (⟨·⟩) := by
    rw [htops, List.map_map]
    apply List.map_congr_left
    intro q _
    simp [Arena.empty, Arena.instanceCount]
  refine ⟨fun p hp y hy => ?_, htops' ▸ (nodup_filter_zipIdx _).map fun _ _ h => by cases h; rfl,
    fun x => ?_, ?_⟩
  · simp only [hinst, List.size_toArray, List.length_map, Array.length_toList] at hp
    simp only [hinst, List.getElem_toArray, List.getElem_map, Array.getElem_toList] at hy
    have hbefore := (hdec p hp).refs_before y.token (InstanceRecord.mem_references_iff.1 hy)
      (by simp [InstanceId.token])
    simp only [InstanceId.token, Arena.empty, Arena.instanceCount, List.size_toArray, List.length_nil] at hbefore
    omega
  · -- a mark stays set exactly when no decoded instance references the position
    have hne := readFront_token_ne_zero hfront
    rw [htops', List.mem_map, hcount]
    simp only [hinst, List.mem_toArray]
    constructor
    · rintro ⟨p, hp, rfl⟩
      obtain ⟨hpn, hp0⟩ := mem_filter_zipIdx.1 hp
      simp only [Vector.length_toList] at hpn
      rw [Vector.getElem_toList, hmarks p hpn] at hp0
      refine ⟨by simpa [hsz] using hpn, fun d hd href => hp0 ?_⟩
      obtain ⟨d', hd', rfl⟩ := List.mem_map.1 hd
      rw [if_pos ⟨d', hd', by simpa [Arena.empty, Arena.instanceCount] using href⟩]
    · rintro ⟨hx, hunref⟩
      have hxn : x.index < (entries.map (·.token)).size := by simpa [hsz] using hx
      refine ⟨x.index, mem_filter_zipIdx.2 ⟨by simpa using hxn, ?_⟩, rfl⟩
      rw [Vector.getElem_toList, hmarks _ hxn, if_neg]
      · simpa using hne _ (Array.getElem_mem _)
      · rintro ⟨d, hd, href⟩
        exact hunref d.inst (List.mem_map_of_mem hd) (by simpa [Arena.empty, Arena.instanceCount] using href)
  · have := readFront_remaining hfront
    simp only [hinst, hcount, List.toList_toArray, List.map_map, Function.comp_def, Array.length_toList,
      Nat.mul_add] at hsize ⊢
    omega

/-- **A decode into the empty arena only references back**: every reference
of a decoded instance names an instance decoded before it. -/
theorem deserialize_empty_descends (h : deserialize data Arena.empty = .ok (tops, A)) : A.Descends := by
  obtain ⟨hback, -⟩ := deserialize_empty_eq_ok h
  intro x r hx y hy
  obtain ⟨hxlt, rfl⟩ := Array.getElem?_eq_some_iff.1 hx
  have hyx := hback x.index hxlt y hy
  refine ⟨hyx, ?_⟩
  simp only [Arena.inst, Array.getElem?_eq_getElem (Nat.lt_trans hyx hxlt), Option.isSome_some]

/-- **The top-level instances of a decode** are exactly the decoded instances
that no instance references. -/
theorem mem_deserialize_empty_tops_iff (h : deserialize data Arena.empty = .ok (tops, A)) (x : InstanceId) :
    x ∈ tops ↔ (A.inst x).isSome ∧ ∀ w, x ∉ A.references w := by
  obtain ⟨-, -, hmem, -⟩ := deserialize_empty_eq_ok h
  rw [hmem]
  constructor
  · rintro ⟨hx, hunref⟩
    refine ⟨by simpa [Arena.inst, Arena.instanceCount] using hx, fun w hw => ?_⟩
    obtain ⟨i, hw', hxi⟩ := Arena.exists_inst_of_mem_references hw
    exact hunref i (Array.mem_of_getElem? hw') hxi
  · rintro ⟨hx, hunref⟩
    refine ⟨by simpa [Arena.inst, Arena.instanceCount] using hx, fun i hi hxi => ?_⟩
    obtain ⟨q, hq⟩ := Array.mem_iff_getElem?.1 hi
    exact hunref ⟨q⟩ (by rw [Arena.references_of_inst hq]; exact hxi)

/-- **Every decoded instance is reachable from the top-level ones**, and
nothing else is. An instance that is not top-level is referenced by one that
lies after it; the induction is on the distance to the end of the stream. -/
theorem deserialize_empty_reachableFrom_iff (h : deserialize data Arena.empty = .ok (tops, A)) (x : InstanceId) :
    A.ReachableFrom tops x ↔ (A.inst x).isSome := by
  have hdesc := deserialize_empty_descends h
  constructor
  · intro hx
    induction hx with
    | top htop => exact ((mem_deserialize_empty_tops_iff h _).1 htop).1
    | ref _ hr hy => exact (hdesc _ _ hr _ hy).2
  · suffices key : ∀ k x, A.instanceCount - x.index = k → (A.inst x).isSome → A.ReachableFrom tops x from
      key _ x rfl
    intro k
    induction k using Nat.strongRecOn with
    | ind k ih =>
      intro x hk hx
      by_cases hreferenced : ∃ w, x ∈ A.references w
      · obtain ⟨w, hw⟩ := hreferenced
        obtain ⟨i, hw', hxi⟩ := Arena.exists_inst_of_mem_references hw
        -- the referrer lies after `x`, so nearer the end
        have hxw := (hdesc w i hw' x hxi).1
        have hwlt : w.index < A.instanceCount := (Array.getElem?_eq_some_iff.1 hw').1
        exact .ref (ih _ (by omega) w rfl (by simp [hw'])) hw' hxi
      · exact .top ((mem_deserialize_empty_tops_iff h x).2 ⟨hx, fun w hw => hreferenced ⟨w, hw⟩⟩)

/-- **Short streams have short reference chains.** Every decoded instance
took a slot's bytes of the stream, and a chain of references from a
top-level instance passes through distinct instances before it, so the
stream holds a slot's bytes per step of the chain and one more. -/
theorem refPath_le_of_deserialize_empty (h : deserialize data Arena.empty = .ok (tops, A)) {x : InstanceId}
    (hx : x ∈ tops) {n : Nat} (hp : A.RefPath x n) : slotSize * (n + 1) ≤ data.length := by
  have hdepth := (deserialize_empty_descends h).refPath_le hp
  have hxlt := (Array.getElem?_eq_some_iff.1
    (Option.get_mem ((mem_deserialize_empty_tops_iff h x).1 hx).1)).1
  have hbytes := (deserialize_empty_eq_ok h).2.2.2
  simp only [Arena.instanceCount, slotSize] at hbytes hxlt ⊢
  omega

end Empty

end CimBroker.Stream

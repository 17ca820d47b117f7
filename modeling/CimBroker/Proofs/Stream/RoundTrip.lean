import CimBroker.Proofs.Stream.ReadBack
import CimBroker.Proofs.Stream.Walk
import CimBroker.Proofs.Stream.WellFormed

/-!
# The stream round trip

Writing the instances of an arena reachable from a list of top-level
instances, then reading the stream into any arena, appends to that arena a
copy of the written graph: one class per class of a written instance and one
instance per reachable instance, in the order of the walk. The instance
written at position `k` becomes the arena's instance at its instance count
plus `k`; its class has the same name, namespace and property names, two
copies share a class exactly when their originals do, host name, namespace
and values are the same, and each reference slot names the copy of the
instance the original's slot names. The top-level instances the decoder
returns are the copies of the written instances that no written instance
references.

The arena written is one reachable through the arena operations, so that
its records are sound and its references name its own instances, and its
handles are 64-bit.

## Main results

* `Tables.Inv.resolveToken_eq` — each reference of a written instance
  resolves, through the reference table, to the position its target was
  written at.
* `deserialize_written` — what reading a written stream returns, exactly.
* `deserialize_serialize` — the round trip.
-/

namespace CimBroker.Stream

/-! ## Tokens and references -/

/-- Each non-empty token slot of an instance names one of its references. -/
theorem InstanceRecord.mem_references_of_mem_tokens {i : InstanceRecord} {tok : Nat} (h : tok ∈ i.record.tokens)
    (h0 : tok ≠ 0) : (⟨tok - 1⟩ : InstanceId) ∈ i.references := by
  obtain ⟨s, hs, hget⟩ := List.getElem_of_mem h
  refine List.mem_filterMap.2 ⟨s, List.mem_range.2 hs, ?_⟩
  have htoken : i.record.token s = tok := by
    simp [Record.token, List.getD_eq_getElem?_getD, List.getElem?_eq_getElem hs, hget]
  obtain ⟨n, rfl⟩ := Nat.exists_eq_succ_of_ne_zero h0
  simp [InstanceRecord.extRef, htoken, InstanceId.ofToken?]

/-- What a reference of the stream resolves to, for a walk with tables `t`:
an empty slot stays empty, and the token of an instance becomes its position
in the walk's order, plus one. -/
def Tables.resolvedToken (t : Tables) (tok : Nat) : Nat :=
  if tok = 0 then 0 else t.instanceOrder.toList.idxOf ⟨tok - 1⟩ + 1

/-- Where a decoder that read `base` instances before puts each instance of
a walk with tables `t`: at `base` plus its position in the walk's order. -/
def Tables.image (t : Tables) (base : Nat) (x : InstanceId) : InstanceId :=
  ⟨base + t.instanceOrder.toList.idxOf x⟩

/-- A handle list equal to a record list through a look-up gives, at each
position, the record the handle there names. -/
theorem List.apply_eq_getElem?_of_map_eq {α β : Type} {g : α → Option β} {l : List α} {us : List β}
    (h : l.map g = us.map some) {k : Nat} {x : α} (hx : l[k]? = some x) : g x = us[k]? := by
  have hk := congrArg (·[k]?) h
  simp only [List.getElem?_map, hx, Option.map_some] at hk
  cases hu : us[k]? with
  | none => simp [hu] at hk
  | some u =>
    rw [hu] at hk
    simpa using hk

/-- Conversely, each record of the list is named by the handle at its
position. -/
theorem List.exists_getElem?_of_map_eq {α β : Type} {g : α → Option β} {l : List α} {us : List β}
    (h : l.map g = us.map some) {k : Nat} {u : β} (hu : us[k]? = some u) :
    ∃ x, l[k]? = some x ∧ g x = some u := by
  have hk := congrArg (·[k]?) h
  simp only [List.getElem?_map, hu, Option.map_some] at hk
  exact Option.map_eq_some_iff.1 hk

/-- In a list without repeats, an element's index is its position. -/
theorem Array.idxOf_toList_eq {α : Type} [BEq α] [LawfulBEq α] {xs : Array α} (h : xs.toList.Nodup) {k : Nat}
    {x : α} (hk : xs[k]? = some x) : xs.toList.idxOf x = k := by
  obtain ⟨hlt, rfl⟩ := Array.getElem?_eq_some_iff.1 hk
  have hidx := List.Nodup.idxOf_getElem h k (by simpa using hlt)
  simpa using hidx

namespace Tables

variable {a : Arena} {R : InstanceId → Prop} {t : Tables}

theorem Inv.idxOf_eq (h : t.Inv a R) {k : Nat} {x : InstanceId} (hk : t.instanceOrder[k]? = some x) :
    t.instanceOrder.toList.idxOf x = k :=
  Array.idxOf_toList_eq h.nodup hk

theorem Inv.image_eq (h : t.Inv a R) {k : Nat} {x : InstanceId} (hk : t.instanceOrder[k]? = some x) (base : Nat) :
    t.image base x = ⟨base + k⟩ := by
  rw [image, h.idxOf_eq hk]

/-- The class-resolution entries name written instances, by token, and
positions in the class table. -/
theorem Inv.classResolution_bounds (h : t.Inv a R) {e : Entry} (he : e ∈ t.classResolution) :
    e.token ≠ 0 ∧ e.token ≤ a.instanceCount ∧ e.index < t.classTable.size := by
  obtain ⟨k, hk⟩ := Array.mem_iff_getElem?.1 he
  have hkO : k < t.instanceOrder.size := by
    rw [← h.size_classResolution]
    exact (Array.getElem?_eq_some_iff.1 hk).1
  obtain ⟨r, c, hr, hcr, hct⟩ := h.classEntry k _ (Array.getElem?_eq_getElem hkO)
  rw [hk] at hcr
  cases hcr
  have hlt := (Array.getElem?_eq_some_iff.1 hr).1
  refine ⟨by simp [InstanceId.token], ?_, (Array.getElem?_eq_some_iff.1 hct).1⟩
  simp only [InstanceId.token, Arena.instanceCount]
  omega

/-- The reference entries name written instances, by token, and positions in
the walk's order. -/
theorem Inv.referenceResolution_bounds (h : t.Inv a R) {e : Entry} (he : e ∈ t.referenceResolution) :
    e.token ≤ a.instanceCount ∧ e.index < t.instanceOrder.size := by
  obtain ⟨y, hy, htok⟩ := h.refs_written e he
  obtain ⟨r, -, hr, -, -⟩ := h.classEntry _ _ hy
  have hlt := (Array.getElem?_eq_some_iff.1 hr).1
  refine ⟨?_, (Array.getElem?_eq_some_iff.1 hy).1⟩
  simp only [htok, InstanceId.token, Arena.instanceCount]
  omega

/-- The reference table maps the token of a written instance to its
position: every entry for that token carries it, so the first one does. -/
theorem Inv.referenceTarget_eq (h : t.Inv a R) {j : Nat} {y : InstanceId} (hj : t.instanceOrder[j]? = some y)
    (hmem : (⟨y.token, j⟩ : Entry) ∈ t.referenceResolution) :
    referenceTarget t.referenceResolution y.token = some j := by
  unfold referenceTarget
  obtain ⟨e, he⟩ : ∃ e, t.referenceResolution.find? (fun e => decide (e.token = y.token)) = some e :=
    Option.isSome_iff_exists.1 (Array.find?_isSome.2 ⟨_, hmem, by simp⟩)
  have hetok : e.token = y.token := by
    have hp := Array.find?_some he
    simpa using hp
  obtain ⟨y', hy', htok'⟩ := h.refs_written e (Array.mem_of_find?_eq_some he)
  have hyy : y' = y := InstanceId.eq_of_token_eq (htok'.symm.trans hetok)
  rw [hyy] at hy'
  rw [he, Option.map_some, Array.getElem?_inj_of_nodup h.nodup hy' hj]

/-- **Resolving a written reference.** Each token of the instance written at
position `p` resolves, through the reference table, to its target's position
plus one, a position before `p`. -/
theorem Inv.resolveToken_eq (h : t.Inv a R) {p : Nat} {x : InstanceId} {r : InstanceRecord}
    (hp : t.instanceOrder[p]? = some x) (hx : a.inst x = some r) {tok : Nat} (htok : tok ∈ r.record.tokens) :
    resolveToken t.referenceResolution p tok = .ok (t.resolvedToken tok) := by
  by_cases h0 : tok = 0
  · exact resolveToken_eq_ok.2 (.inl ⟨h0, by simp [resolvedToken, h0]⟩)
  · have hy := InstanceRecord.mem_references_of_mem_tokens htok h0
    obtain ⟨j, hjp, hj, hmem⟩ := h.refs_before p x r hp hx _ hy
    have htoken : (⟨tok - 1⟩ : InstanceId).token = tok := by
      simp only [InstanceId.token]
      omega
    have htarget := h.referenceTarget_eq hj hmem
    rw [htoken] at htarget
    refine resolveToken_eq_ok.2 (.inr ⟨h0, j, htarget, hjp, ?_⟩)
    simp [resolvedToken, h0, h.idxOf_eq hj]

end Tables

/-! ## The blocks of a written stream -/

theorem Arena.mem_of_inst_eq_some {a : Arena} {x : InstanceId} {r : InstanceRecord} (h : a.inst x = some r) :
    r ∈ a.instances :=
  Array.mem_of_getElem? h

/-- The tokens of an instance of an arena reachable through its operations
are 64-bit when its handles are. -/
theorem Arena.Inv.tokensFit {a : Arena} (hA : a.Inv) (hcount : a.instanceCount ≤ maxU64) {x : InstanceId}
    {r : InstanceRecord} (hx : a.inst x = some r) : r.record.TokensFit := by
  intro tok htok
  obtain ⟨hlt, rfl⟩ := Array.getElem?_eq_some_iff.1 hx
  by_cases h0 : tok = 0
  · subst h0
    exact Nat.two_pow_pos 64
  · have hbound := (hA.refs x.index hlt tok htok h0).1
    simp only [Arena.instanceCount, maxU64] at hcount
    omega

variable {A : Arena} {tops : List InstanceId} {t : Tables} {classes : List ClassRecord}
  {recs : List InstanceRecord}

/-- Every instance block of a written stream reads back: the instance is
sound, its tokens are 64-bit, its class-resolution entry names its class,
rebuilt, and its tokens resolve as `Tables.resolvedToken` says. -/
theorem instanceBlock_written (hA : A.Inv) (hcount : A.instanceCount ≤ maxU64) {R : InstanceId → Prop}
    (ht : t.Inv A R) (hclasses : t.classTable.toList.map A.cls = classes.map some)
    (hrecs : t.instanceOrder.toList.map A.inst = recs.map some) (q : Nat) (hq : q < t.classResolution.toList.length)
    (hq' : q < recs.length) :
    InstanceBlock (classes.map ClassRecord.rebuilt).toArray t.referenceResolution t.resolvedToken q
      t.classResolution.toList[q] recs[q] := by
  have hqO : q < t.instanceOrder.size := by
    rw [← ht.size_classResolution]
    simpa using hq
  have hx : t.instanceOrder[q]? = some t.instanceOrder[q] := Array.getElem?_eq_getElem hqO
  have hxr : A.inst t.instanceOrder[q] = some recs[q] := by
    rw [List.apply_eq_getElem?_of_map_eq hrecs (show t.instanceOrder.toList[q]? = some t.instanceOrder[q] by simp),
      List.getElem?_eq_getElem hq']
  obtain ⟨r, c, hr, hcr, hct⟩ := ht.classEntry q _ hx
  rw [hxr] at hr
  cases hr
  have hcrq : t.classResolution.toList[q] = ⟨t.instanceOrder[q].token, c⟩ := by
    rw [Array.getElem_toList]
    exact Option.some.inj ((Array.getElem?_eq_getElem _).symm.trans hcr)
  have hcls : A.cls recs[q].cls = classes[c]? :=
    List.apply_eq_getElem?_of_map_eq hclasses (by simpa using hct)
  have hmem := Arena.mem_of_inst_eq_some hxr
  obtain ⟨cx, hcx, hvalues⟩ := hA.linked recs[q] hmem
  refine ⟨hA.instances_sound _ hmem, hA.tokensFit hcount hxr, ⟨cx.rebuilt, ?_, hvalues⟩,
    fun tok htok => ht.resolveToken_eq hx hxr htok⟩
  rw [hcrq]
  simp [← hcls, hcx]

/-- **Reading a written stream**, exactly: the classes of the class table,
rebuilt and counting the decoded instances, and the instances of the walk's
order, rebuilt against their classes with their references resolved, are
appended; the top-level instances returned are the positions that no
resolved reference claims. -/
theorem deserialize_written (hA : A.Inv) (hcount : A.instanceCount ≤ maxU64) {bytes : List UInt8}
    (hser : serialize A tops = .ok bytes) (B : Arena) :
    ∃ (t : Tables) (classes : List ClassRecord) (recs : List InstanceRecord), ∃ decoded : Array (Decoded ((classes.map ClassRecord.rebuilt).toArray.size)),
      Tables.ofTops A tops = .ok t ∧ t.classTable.toList.map A.cls = classes.map some ∧
      t.instanceOrder.toList.map A.inst = recs.map some ∧
      deserialize bytes B = .ok
        (((recs.foldl (fun m i => claim m (i.record.tokens.map t.resolvedToken))
            (t.classResolution.map (·.token)).toVector).toList.zipIdx.filter (·.1 ≠ 0)).map
            (fun (_, p) => ⟨B.instanceCount + p⟩),
          B.commit (countReferences (classes.map ClassRecord.rebuilt).toArray decoded).toList
            (List.zipWith (fun e i => i.rebuilt ⟨B.classCount + e.index⟩
              (i.record.tokens.map fun tok => shiftToken B.instanceCount (t.resolvedToken tok)))
              t.classResolution.toList recs)) := by
  obtain ⟨t, classes, recs, crBytes, rrBytes, ht, hle, hclasses, hrecs, hcr, hrr, rfl⟩ := serialize_eq_ok hser
  have hinv := (ofTops_inv ht).1
  have hcl : t.classTable.size = classes.length := by simpa using congrArg List.length hclasses
  have hrl : t.instanceOrder.size = recs.length := by simpa using congrArg List.length hrecs
  have hcrl : t.classResolution.toList.length = recs.length := by simp [hinv.size_classResolution, hrl]
  have hcrle : t.classResolution.toList.length ≤ maxU32 := (putTable_eq_ok.1 hcr).1
  -- the classes written are classes of the arena
  have hcs : ∀ c ∈ classes, c.Sound := by
    intro c hc
    obtain ⟨k, hk⟩ := List.mem_iff_getElem?.1 hc
    obtain ⟨d, -, hd⟩ := List.exists_getElem?_of_map_eq hclasses hk
    exact hA.classes_sound c (Array.mem_of_getElem? hd)
  -- the table entries fit in 64 bits: tokens are handles of the arena, positions count written instances
  have hwide : maxU32 < 2 ^ 64 ∧ maxU64 < 2 ^ 64 := by
    simp only [maxU32, maxU64]
    omega
  have hcrfit : ∀ e ∈ t.classResolution.toList, e.token < 2 ^ 64 ∧ e.index < 2 ^ 64 := by
    intro e he
    obtain ⟨-, htok, hidx⟩ := hinv.classResolution_bounds (Array.mem_toList_iff.1 he)
    omega
  have hrrfit : ∀ e ∈ t.referenceResolution.toList, e.token < 2 ^ 64 ∧ e.index < 2 ^ 64 := by
    intro e he
    obtain ⟨htok, hidx⟩ := hinv.referenceResolution_bounds (Array.mem_toList_iff.1 he)
    simp only [Array.length_toList, hinv.size_classResolution] at hcrle
    omega
  obtain ⟨pos, hfront⟩ := readFront_written hcs (hcl ▸ hle) hcr hrr hcrfit hrrfit (fun e he => (hinv.classResolution_bounds he).1)
    (recs.flatMap fun i => putBlock i.record.inUseBytes)
  rw [← hcl] at hfront
  obtain ⟨decoded, pos', hread, hinst, -⟩ := readInstances_blocks (classes.map ClassRecord.rebuilt).toArray
    t.referenceResolution B.classCount B.instanceCount t.resolvedToken t.classResolution.toList recs 0 (by simp) []
    pos #[] (t.classResolution.map (·.token)).toVector hcrl
    (fun q he hr => by simpa using instanceBlock_written hA hcount hinv hclasses hrecs q he hr)
  rw [List.append_nil] at hread
  simp only [List.map_nil, List.nil_append] at hinst
  refine ⟨t, classes, recs, decoded, ht, hclasses, hrecs, ?_⟩
  simp only [deserialize, hfront, Except.ok_bind]
  rw [hread]
  simp [hinst]

/-! ## Copies -/

/-- Instance `iy` copies instance `ix` with its references renamed by `φ`:
the same host name, namespace and values, as many reference slots, and each
slot names the renamed target of the original's slot. -/
structure InstanceRecord.Copy (φ : InstanceId → InstanceId) (ix iy : InstanceRecord) : Prop where
  hostName : iy.hostName = ix.hostName
  ns : iy.ns = ix.ns
  valueCount : iy.valueCount = ix.valueCount
  value : ∀ p, iy.value p = ix.value p
  extRefCount : iy.extRefCount = ix.extRefCount
  extRef : ∀ s, iy.extRef s = (ix.extRef s).map φ

/-- Instance `φ x` of arena `b` copies instance `x` of arena `a`, and its
class has the name, namespace and property names of the original's class. -/
def Arena.Copies (a b : Arena) (φ : InstanceId → InstanceId) (x : InstanceId) : Prop :=
  ∃ ix iy cx cy, a.inst x = some ix ∧ b.inst (φ x) = some iy ∧ a.cls ix.cls = some cx ∧
    b.cls iy.cls = some cy ∧ cx.sameShape cy = true ∧ ix.Copy φ iy

/-- The instances that instance `x` of arena `a` references. -/
def Arena.references (a : Arena) (x : InstanceId) : List InstanceId :=
  ((a.inst x).map InstanceRecord.references).getD []

@[simp] theorem Arena.inst_commit (a : Arena) (cs : List ClassRecord) (is : List InstanceRecord) (k : Nat) :
    (a.commit cs is).inst ⟨a.instanceCount + k⟩ = is[k]? := by
  simp [Arena.inst, Arena.commit, Arena.instanceCount, Array.getElem?_append_right]

@[simp] theorem Arena.cls_commit (a : Arena) (cs : List ClassRecord) (is : List InstanceRecord) (c : Nat) :
    (a.commit cs is).cls ⟨a.classCount + c⟩ = cs[c]? := by
  simp [Arena.cls, Arena.commit, Arena.classCount, Array.getElem?_append_right]

theorem List.getD_map_of_zero {f : Nat → Nat} (hf : f 0 = 0) (l : List Nat) (s : Nat) :
    (l.map f).getD s 0 = f (l.getD s 0) := by
  rw [List.getD_eq_getElem?_getD, List.getD_eq_getElem?_getD, List.getElem?_map]
  cases l[s]? <;> simp [hf]

/-- Two classes with as many properties and the same texts have the same
shape. -/
theorem ClassRecord.sameShape_of_text {cx cy : ClassRecord} (hcount : cy.propertyCount = cx.propertyCount)
    (htext : ∀ k, cy.record.text k = cx.record.text k) : cx.sameShape cy = true := by
  simp [ClassRecord.sameShape, ClassRecord.name, ClassRecord.ns, ClassRecord.properties, hcount, htext]

/-- **A rebuilt instance is a copy.** A sound instance, rebuilt with its
tokens renamed by `f`, copies the original under `φ` when `f` keeps empty
slots empty and renames the token of each instance to that of its image. -/
theorem InstanceRecord.Sound.copy_rebuilt {ix : InstanceRecord} (hi : ix.Sound) (cls : ClassId) {f : Nat → Nat}
    (hf : f 0 = 0) {φ : InstanceId → InstanceId} (hφ : ∀ tok, tok ≠ 0 → InstanceId.ofToken? (f tok) = some (φ ⟨tok - 1⟩)) :
    ix.Copy φ (ix.rebuilt cls (ix.record.tokens.map f)) := by
  have hlen : (ix.rebuilt cls (ix.record.tokens.map f)).record.tokens.length = ix.record.tokens.length := by
    simp [InstanceRecord.rebuilt]
  have hstring : ∀ k, (ix.rebuilt cls (ix.record.tokens.map f)).record.string k = ix.record.string k :=
    Record.string_of_layout (by rfl) hlen (by rfl) hi.record.slotsInHeap
  have htext : ∀ k, (ix.rebuilt cls (ix.record.tokens.map f)).record.text k = ix.record.text k :=
    Record.text_of_layout (by rfl) hlen (by rfl) hi.record.slotsInHeap
  have hcount : (ix.rebuilt cls (ix.record.tokens.map f)).valueCount = ix.valueCount := rfl
  refine ⟨htext 0, htext 1, hcount, fun p => ?_, hlen, fun s => ?_⟩
  · simp only [InstanceRecord.value, hcount, hstring]
  · -- each slot's token is renamed by `f`
    have htoken : (ix.rebuilt cls (ix.record.tokens.map f)).record.token s = f (ix.record.token s) :=
      List.getD_map_of_zero hf ix.record.tokens s
    simp only [InstanceRecord.extRef, htoken]
    by_cases h0 : ix.record.token s = 0
    · simp [h0, hf, InstanceId.ofToken?]
    · rw [hφ _ h0]
      obtain ⟨n, hn⟩ := Nat.exists_eq_succ_of_ne_zero h0
      simp [hn, InstanceId.ofToken?]

/-- The decoder renames the token of each written instance to that of its
image. -/
theorem Tables.ofToken?_shiftToken_resolvedToken (t : Tables) (base : Nat) {tok : Nat} (h0 : tok ≠ 0) :
    InstanceId.ofToken? (shiftToken base (t.resolvedToken tok)) = some (t.image base ⟨tok - 1⟩) := by
  simp only [shiftToken, Tables.resolvedToken, h0, if_false, Nat.add_one_ne_zero, Tables.image]
  rw [Nat.add_right_comm]
  simp [InstanceId.ofToken?, Nat.add_comm]

variable {R : InstanceId → Prop}

/-- **The image of a written instance.** Reading a written stream puts, at
the image of each written instance, that instance rebuilt: linked to the
class at the arena's class count plus its class's position in the class
table, with each token renamed to that of its target's image. -/
theorem inst_image_written (ht : t.Inv A R) (hrecs : t.instanceOrder.toList.map A.inst = recs.map some)
    (B : Arena) (cs : List ClassRecord) {x : InstanceId} (hx : x ∈ t.instanceOrder) :
    ∃ ix, A.inst x = some ix ∧
      (B.commit cs (List.zipWith (fun e i => i.rebuilt ⟨B.classCount + e.index⟩
          (i.record.tokens.map fun tok => shiftToken B.instanceCount (t.resolvedToken tok)))
          t.classResolution.toList recs)).inst (t.image B.instanceCount x) =
        some (ix.rebuilt ⟨B.classCount + t.classTable.toList.idxOf ix.cls⟩
          (ix.record.tokens.map fun tok => shiftToken B.instanceCount (t.resolvedToken tok))) := by
  obtain ⟨k, hk⟩ := Array.mem_iff_getElem?.1 hx
  obtain ⟨ix, c, hix, hcr, hct⟩ := ht.classEntry k x hk
  have hrec : recs[k]? = some ix := by
    rw [← List.apply_eq_getElem?_of_map_eq hrecs (by simpa using hk), hix]
  refine ⟨ix, hix, ?_⟩
  rw [ht.image_eq hk, Arena.inst_commit, List.getElem?_zipWith, Array.getElem?_toList, hcr, hrec,
    Array.idxOf_toList_eq ht.classes_nodup hct]

/-- The class at the arena's class count plus `c`, after reading a written
stream, is class `c` of the class table rebuilt, counting some number of
instances. -/
theorem cls_commit_written (hclasses : t.classTable.toList.map A.cls = classes.map some) (B : Arena)
    (decoded : Array (Decoded ((classes.map ClassRecord.rebuilt).toArray.size))) (is : List InstanceRecord)
    {c : Nat} {cx : ClassRecord} (hcx : (t.classTable[c]?).bind A.cls = some cx) :
    ∃ n, (B.commit (countReferences (classes.map ClassRecord.rebuilt).toArray decoded).toList is).cls
      ⟨B.classCount + c⟩ = some ⟨{ cx.record with refCount := n, free := 0 }⟩ := by
  obtain ⟨d, hd, hdcx⟩ := Option.bind_eq_some_iff.1 hcx
  have hcl : classes[c]? = some cx := by
    rw [← List.apply_eq_getElem?_of_map_eq hclasses (by simpa using hd), hdcx]
  have hc : c < (classes.map ClassRecord.rebuilt).toArray.size := by
    simpa using (List.getElem?_eq_some_iff.1 hcl).1
  have hget : (classes.map ClassRecord.rebuilt).toArray[c] = cx.rebuilt := by
    simp [(List.getElem?_eq_some_iff.1 hcl).2]
  refine ⟨min maxU32 (decoded.toList.countP (·.classPos.val = c)), ?_⟩
  rw [Arena.cls_commit, Vector.getElem?_toList, Vector.getElem?_eq_getElem hc,
    countReferences_getElem _ decoded c hc (by rw [hget]; rfl), hget]
  rfl

/-! ## The top-level instances returned -/

theorem Arena.references_of_inst {a : Arena} {y : InstanceId} {r : InstanceRecord} (h : a.inst y = some r) :
    a.references y = r.references := by
  simp [Arena.references, h]

/-- The position of a written instance, plus one, is among the resolved
tokens of a written instance exactly when that instance references it. -/
theorem Tables.Inv.succ_mem_map_resolvedToken_iff (h : t.Inv A R) {q p : Nat} {y x : InstanceId}
    {r : InstanceRecord} (hq : t.instanceOrder[q]? = some y) (hy : A.inst y = some r)
    (hp : t.instanceOrder[p]? = some x) : p + 1 ∈ r.record.tokens.map t.resolvedToken ↔ x ∈ r.references := by
  constructor
  · intro hmem
    obtain ⟨tok, htok, hres⟩ := List.mem_map.1 hmem
    have h0 : tok ≠ 0 := by
      rintro rfl
      simp [Tables.resolvedToken] at hres
    have href := InstanceRecord.mem_references_of_mem_tokens htok h0
    obtain ⟨j, -, hj, -⟩ := h.refs_before q y r hq hy _ href
    simp only [Tables.resolvedToken, h0, if_false, h.idxOf_eq hj, Nat.add_right_cancel_iff] at hres
    subst hres
    rw [hp] at hj
    cases hj
    exact href
  · intro hx
    obtain ⟨s, -, hs⟩ := List.mem_filterMap.1 hx
    refine List.mem_map.2 ⟨x.index + 1, Arena.InstanceRecord.extRef_eq_some hs, ?_⟩
    simp [Tables.resolvedToken, h.idxOf_eq hp]

/-- After claiming the resolved tokens of `recs` in turn, a mark is cleared
exactly when some instance of `recs` names its position. -/
theorem getElem_foldl_claim {n : Nat} (us : InstanceRecord → List Nat) (p : Nat) (hp : p < n) :
    ∀ (recs : List InstanceRecord) (marks : Vector Nat n),
      (recs.foldl (fun m i => claim m (us i)) marks)[p] = if ∃ i ∈ recs, p + 1 ∈ us i then 0 else marks[p]
  | [], marks => by simp
  | i :: is, marks => by
    rw [List.foldl_cons, getElem_foldl_claim us p hp is, getElem_claim _ _ p hp]
    by_cases hi : p + 1 ∈ us i
    · simp [hi]
    · simp [hi]

/-- The marks left by reading a written stream: a written instance's token,
cleared when a written instance references it. -/
theorem toList_marks_written (ht : t.Inv A R) (hrecs : t.instanceOrder.toList.map A.inst = recs.map some) :
    (recs.foldl (fun m i => claim m (i.record.tokens.map t.resolvedToken))
        (t.classResolution.map (·.token)).toVector).toList =
      t.instanceOrder.toList.map fun x => if ∃ y ∈ t.instanceOrder, x ∈ A.references y then 0 else x.token := by
  have hsize : (t.classResolution.map (·.token)).size = t.instanceOrder.size := by
    simp [ht.size_classResolution]
  apply List.ext_getElem (by simp [hsize])
  intro p hp hp'
  have hpO : p < t.instanceOrder.size := by simpa using hp'
  have hpn : p < (t.classResolution.map (·.token)).size := by rw [hsize]; exact hpO
  have hx : t.instanceOrder[p]? = some t.instanceOrder[p] := Array.getElem?_eq_getElem hpO
  -- the mark a position starts with is the token of the instance written there
  have hstart : (t.classResolution.map (·.token)).toVector[p] = t.instanceOrder[p].token := by
    obtain ⟨r, c, -, hcr, -⟩ := ht.classEntry p _ hx
    have hcrp := (Array.getElem?_eq_some_iff.1 hcr).2
    show (t.classResolution.map (·.token))[p] = _
    simp [hcrp]
  -- an instance of the written list names the position exactly when its original references the instance there
  have hclaimed : (∃ i ∈ recs, p + 1 ∈ i.record.tokens.map t.resolvedToken) ↔
      ∃ y ∈ t.instanceOrder, t.instanceOrder[p] ∈ A.references y := by
    constructor
    · rintro ⟨i, hi, hmem⟩
      obtain ⟨q, hq⟩ := List.mem_iff_getElem?.1 hi
      obtain ⟨y, hyq, hy⟩ := List.exists_getElem?_of_map_eq hrecs hq
      rw [Array.getElem?_toList] at hyq
      refine ⟨y, Array.mem_of_getElem? hyq, ?_⟩
      rw [Arena.references_of_inst hy]
      exact (ht.succ_mem_map_resolvedToken_iff hyq hy hx).1 hmem
    · rintro ⟨y, hy, hmem⟩
      obtain ⟨q, hq⟩ := Array.mem_iff_getElem?.1 hy
      have hr := List.apply_eq_getElem?_of_map_eq hrecs (by simpa using hq)
      obtain ⟨r, c, hr', -, -⟩ := ht.classEntry q y hq
      rw [hr'] at hr
      rw [Arena.references_of_inst hr'] at hmem
      exact ⟨r, List.mem_of_getElem? hr.symm, (ht.succ_mem_map_resolvedToken_iff hq hr' hx).2 hmem⟩
  rw [Vector.getElem_toList, getElem_foldl_claim _ p hpn, hstart, List.getElem_map]
  simp only [Array.getElem_toList]
  by_cases hc : ∃ y ∈ t.instanceOrder, t.instanceOrder[p] ∈ A.references y
  · rw [if_pos (hclaimed.2 hc), if_pos hc]
  · rw [if_neg (fun h => hc (hclaimed.1 h)), if_neg hc]

/-- In a list without repeats, the positions of the elements that pass a
test are the indices of those elements. The induction is on the list. -/
theorem List.map_snd_filter_zipIdx {α : Type} [BEq α] [LawfulBEq α] (P : α → Bool) :
    ∀ (l : List α) (k : Nat), l.Nodup →
      ((l.zipIdx k).filter (fun q => P q.1)).map Prod.snd = (l.filter P).map (fun x => k + l.idxOf x)
  | [], _, _ => rfl
  | a :: l, k, hnodup => by
    have ih := List.map_snd_filter_zipIdx P l (k + 1) (List.nodup_cons.1 hnodup).2
    -- past the head, an element's index is one more than in the tail
    have htail : (l.filter P).map (fun x => k + (a :: l).idxOf x) = (l.filter P).map (fun x => k + 1 + l.idxOf x) := by
      apply List.map_congr_left
      intro x hx
      have hxa : a ≠ x := fun hax => (List.nodup_cons.1 hnodup).1 (hax ▸ (List.mem_filter.1 hx).1)
      simp [hxa]
      omega
    by_cases ha : P a = true
    · simp [List.zipIdx_cons, ha, ih, htail]
    · simp [List.zipIdx_cons, ha, ih, htail]

/-- **The top-level instances returned** by reading a written stream are the
images of the written instances that no written instance references, in the
order written. -/
theorem tops_written (ht : t.Inv A R) (hrecs : t.instanceOrder.toList.map A.inst = recs.map some) (base : Nat) :
    (((recs.foldl (fun m i => claim m (i.record.tokens.map t.resolvedToken))
        (t.classResolution.map (·.token)).toVector).toList.zipIdx.filter (·.1 ≠ 0)).map
        (fun (_, p) => (⟨base + p⟩ : InstanceId))) =
      (t.instanceOrder.toList.filter fun x => t.instanceOrder.toList.all fun y => x ∉ A.references y).map
        (t.image base) := by
  rw [toList_marks_written ht hrecs, ← List.map_zipIdx, List.filter_map, List.map_map]
  have hfilter := List.map_snd_filter_zipIdx (fun x => t.instanceOrder.toList.all fun y => x ∉ A.references y)
    t.instanceOrder.toList 0 ht.nodup
  have himage : (t.instanceOrder.toList.filter fun x => t.instanceOrder.toList.all fun y => x ∉ A.references y).map
      (t.image base) = (((t.instanceOrder.toList.zipIdx).filter fun q =>
        t.instanceOrder.toList.all fun y => q.1 ∉ A.references y).map Prod.snd).map
          (fun p => (⟨base + p⟩ : InstanceId)) := by
    rw [hfilter, List.map_map]
    apply List.map_congr_left
    intro x _
    simp [Tables.image]
  rw [himage, List.map_map]
  congr 1
  -- a position stays marked exactly when no written instance references the instance there
  apply List.filter_congr
  intro q _
  by_cases hq : ∃ y ∈ t.instanceOrder, q.1 ∈ A.references y
  · obtain ⟨y, hy, hmem⟩ := hq
    have hall : (t.instanceOrder.toList.all fun y => q.1 ∉ A.references y) = false :=
      List.all_eq_false.2 ⟨y, by simpa using hy, by simpa using hmem⟩
    simp only [Function.comp, Prod.map, hall]
    simp [show ∃ y ∈ t.instanceOrder, q.1 ∈ A.references y from ⟨y, hy, hmem⟩]
  · have hall : (t.instanceOrder.toList.all fun y => q.1 ∉ A.references y) = true := by
      refine List.all_eq_true.2 fun y hy => ?_
      simpa using fun hmem => hq ⟨y, by simpa using hy, hmem⟩
    simp only [Function.comp, Prod.map, hall, hq, if_false]
    simp [InstanceId.token]

/-! ## The round trip -/

namespace Tables

variable {a : Arena} {R : InstanceId → Prop} {t : Tables}

/-- The class table lists exactly the classes of the written instances. -/
theorem Inv.mem_classTable_iff (h : t.Inv a R) (c : ClassId) :
    c ∈ t.classTable ↔ ∃ x ∈ t.instanceOrder, ∃ r, a.inst x = some r ∧ r.cls = c := by
  constructor
  · intro hc
    obtain ⟨x, r, hx, hr, hcls⟩ := h.classes_used c hc
    exact ⟨x, hx, r, hr, hcls⟩
  · rintro ⟨x, hx, r, hr, rfl⟩
    obtain ⟨k, hk⟩ := Array.mem_iff_getElem?.1 hx
    obtain ⟨r', c, hr', -, hct⟩ := h.classEntry k x hk
    rw [hr] at hr'
    cases hr'
    exact Array.mem_of_getElem? hct

theorem Inv.cls_mem_classTable (h : t.Inv a R) {x : InstanceId} {r : InstanceRecord}
    (hx : x ∈ t.instanceOrder) (hr : a.inst x = some r) : r.cls ∈ t.classTable.toList :=
  Array.mem_toList_iff.2 ((h.mem_classTable_iff r.cls).2 ⟨x, hx, r, hr, rfl⟩)

/-- The class of a written instance is found in the class table at its
index there. -/
theorem Inv.getElem?_idxOf_classTable (h : t.Inv a R) {x : InstanceId} {r : InstanceRecord}
    (hx : x ∈ t.instanceOrder) (hr : a.inst x = some r) :
    t.classTable[t.classTable.toList.idxOf r.cls]? = some r.cls := by
  have hmem := h.cls_mem_classTable hx hr
  rw [← Array.getElem?_toList, List.getElem?_eq_getElem (List.idxOf_lt_length_of_mem hmem),
    List.getElem_idxOf]

end Tables

/-- **The stream round trip.** Writing the instances of an arena reachable
through the arena operations, with 64-bit handles, and reading the stream
into any arena `B` appends to `B` one class per class of a written instance
and one instance per instance reachable from `tops`, each once. The
instance written at position `k` lands at `B`'s instance count plus `k` and
copies its original, with its references renamed the same way; two copies
share a class exactly when their originals do. The top-level instances
returned are the copies of the written instances that no written instance
references. -/
theorem deserialize_serialize {A : Arena} (hA : A.Reachable) (hcount : A.instanceCount ≤ maxU64)
    {tops : List InstanceId} {bytes : List UInt8} (hser : serialize A tops = .ok bytes) (B : Arena) :
    ∃ t, Tables.ofTops A tops = .ok t ∧
      t.instanceOrder.toList.Nodup ∧ (∀ x, x ∈ t.instanceOrder ↔ A.ReachableFrom tops x) ∧
      t.classTable.toList.Nodup ∧
      (∀ c, c ∈ t.classTable ↔ ∃ x ∈ t.instanceOrder, ∃ r, A.inst x = some r ∧ r.cls = c) ∧
      ∃ ids cs is, deserialize bytes B = .ok (ids, B.commit cs is) ∧
        cs.length = t.classTable.size ∧ is.length = t.instanceOrder.size ∧
        (∀ k (hk : k < t.instanceOrder.size),
          t.image B.instanceCount t.instanceOrder[k] = ⟨B.instanceCount + k⟩) ∧
        (∀ x ∈ t.instanceOrder, A.Copies (B.commit cs is) (t.image B.instanceCount) x) ∧
        (∀ x ∈ t.instanceOrder, ∀ y ∈ t.instanceOrder,
          ((B.commit cs is).inst (t.image B.instanceCount x)).map (·.cls) =
              ((B.commit cs is).inst (t.image B.instanceCount y)).map (·.cls) ↔
            (A.inst x).map (·.cls) = (A.inst y).map (·.cls)) ∧
        ids = (t.instanceOrder.toList.filter fun x => t.instanceOrder.toList.all fun y => x ∉ A.references y).map
          (t.image B.instanceCount) := by
  have hinvA := hA.inv
  obtain ⟨t, classes, recs, decoded, ht, hclasses, hrecs, hdes⟩ := deserialize_written hinvA hcount hser B
  have hinv := (ofTops_inv ht).1
  have hcl : classes.length = t.classTable.size := by simpa using (congrArg List.length hclasses).symm
  have hrl : recs.length = t.instanceOrder.size := by simpa using (congrArg List.length hrecs).symm
  refine ⟨t, ht, hinv.nodup, mem_ofTops_iff ht, hinv.classes_nodup, hinv.mem_classTable_iff, _, _, _, hdes,
    by simp [hcl], by simp [hinv.size_classResolution, hrl],
    fun k hk => hinv.image_eq (Array.getElem?_eq_getElem hk) _, ?copies, ?shared, tops_written hinv hrecs _⟩
  case copies =>
    intro x hx
    obtain ⟨ix, hix, hinst⟩ := inst_image_written hinv hrecs B _ hx
    have hmem := Arena.mem_of_inst_eq_some hix
    obtain ⟨cx, hcx, -⟩ := hinvA.linked ix hmem
    obtain ⟨n, hcls⟩ := cls_commit_written hclasses B decoded _
      (show (t.classTable[t.classTable.toList.idxOf ix.cls]?).bind A.cls = some cx by
        rw [hinv.getElem?_idxOf_classTable hx hix, Option.bind_some, hcx])
    refine ⟨ix, _, cx, _, hix, hinst, hcx, hcls, ?_, ?_⟩
    · -- the class is rebuilt from the same record, so it reads the same texts
      have hsound := hinvA.classes_sound cx (Array.mem_of_getElem? hcx)
      exact ClassRecord.sameShape_of_text rfl
        (Record.text_of_layout (by rfl) (by rfl) (by rfl) hsound.record.slotsInHeap)
    · exact (hinvA.instances_sound ix hmem).copy_rebuilt _ (by simp [Tables.resolvedToken, shiftToken])
        (fun tok h0 => t.ofToken?_shiftToken_resolvedToken _ h0)
  case shared =>
    -- each copy is linked to the class at its original's class-table index, and those indices differ
    intro x hx y hy
    obtain ⟨ix, hix, hinstx⟩ := inst_image_written hinv hrecs B
      (countReferences (classes.map ClassRecord.rebuilt).toArray decoded).toList hx
    obtain ⟨iy, hiy, hinsty⟩ := inst_image_written hinv hrecs B
      (countReferences (classes.map ClassRecord.rebuilt).toArray decoded).toList hy
    rw [hinstx, hinsty, hix, hiy]
    simp only [Option.map_some, Option.some.injEq, InstanceRecord.rebuilt, ClassId.mk.injEq,
      Nat.add_left_cancel_iff]
    exact List.idxOf_inj (hinv.cls_mem_classTable hx hix)

/-- One class and two instances, the second referencing the first, written
from the second: reading the stream into the empty arena copies every
written instance. -/
theorem deserialize_serialize_reference :
    ∃ (A : Arena) (tops : List InstanceId) (bytes : List UInt8), A.Reachable ∧ A.instanceCount ≤ maxU64 ∧
      serialize A tops = .ok bytes ∧ ∃ t ids B', Tables.ofTops A tops = .ok t ∧
        deserialize bytes Arena.empty = .ok (ids, B') ∧ ∀ x ∈ t.instanceOrder, A.Copies B' (t.image 0) x := by
  -- the kernel runs the construction and the writer; the elaborator's reduction is too costly here
  obtain ⟨⟨A, d, bytes⟩, h⟩ := Except.exists_eq_ok_of_isOk (do
      let c ← ClassRecord.new "Disk" "root/cimv2" ["Size"]
      let sys ← (Arena.empty.addClass c).2.addInstance ⟨0⟩ 0
      let disk ← sys.2.addInstance ⟨0⟩ 1
      let a ← disk.2.setReference disk.1 0 (some sys.1)
      let bytes ← serialize a [disk.1]
      pure (a, disk.1, bytes)) (by decide +kernel)
  obtain ⟨c, hc, h⟩ := Except.bind_eq_ok.1 h
  obtain ⟨⟨sys, a₁⟩, hadd₁, h⟩ := Except.bind_eq_ok.1 h
  obtain ⟨⟨d', a₂⟩, hadd₂, h⟩ := Except.bind_eq_ok.1 h
  dsimp only at hadd₂ h
  obtain ⟨a₃, hset, h⟩ := Except.bind_eq_ok.1 h
  obtain ⟨bytes', hser, h⟩ := Except.bind_eq_ok.1 h
  cases h
  have hr : A.Reachable :=
    .step (.step (.step (.step .empty (.addClass Arena.empty hc)) (.addInstance hadd₁)) (.addInstance hadd₂))
      (.setReference hset)
  -- setting a reference keeps the two instances
  have hcount : A.instanceCount ≤ maxU64 := by
    obtain ⟨-, hupd⟩ := Arena.setReference_eq_ok hset
    obtain ⟨-, r', -, rfl⟩ := Arena.updateInstance_eq_ok hupd
    have h2 : a₂.instanceCount = 2 := by
      rw [Arena.instanceCount_addInstance hadd₂, Arena.instanceCount_addInstance hadd₁]
      rfl
    simp only [Arena.instanceCount, Array.size_setIfInBounds] at h2 ⊢
    simp [h2, maxU64]
  obtain ⟨t, ht, -, -, -, -, ids, cs, is, hdes, -, -, -, hcopies, -, -⟩ :=
    deserialize_serialize hr hcount hser Arena.empty
  exact ⟨A, [d], bytes, hr, hcount, hser, t, ids, _, ht, hdes, hcopies⟩

end CimBroker.Stream

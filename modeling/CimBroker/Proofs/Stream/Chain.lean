import Mathlib.Algebra.Order.Group.Nat
import CimBroker.Proofs.Stream.Reencode

/-!
# Chains of references

`Arena.addChain` appends instances of one class, each pointing through its
single reference slot at the one before. Written from all its instances in
order, a chain of any length makes a stream: each instance is visited after
the one it references. Read back, only the last instance is top-level, and
writing again from it walks the whole chain in one visit. So a chain longer
than the writer's budget decodes but cannot be written again
(`chainStream_reencode_error`): the decoder and the writer accept different
graphs.

## Main results

* `extendChain_eq_ok`, `addChain_eq_ok` — what building a chain appends.
* `chainStream_eq_ok` — the stream of a chain of at most `maxU32` instances
  is written, and reads back as a chain.
* `chainStream_reencode_error` — from `maxReferenceDepth + 2` instances on,
  the chain read back cannot be written from its top-level instances.
-/

namespace CimBroker.Stream

/-! ## Building a chain -/

/-- Overwriting the element just pushed is pushing the new one. -/
theorem Array.setIfInBounds_push_size {α : Type} (xs : Array α) (x y : α) :
    (xs.push x).setIfInBounds xs.size y = xs.push y := by
  apply Array.ext (by simp)
  intro k h₁ h₂
  have hk₁ : k < (xs.push x).size := by simpa using h₂
  rw [Array.getElem_setIfInBounds hk₁, Array.getElem_push, Array.getElem_push]
  by_cases hk : k < xs.size
  · simp [hk, Nat.ne_of_gt hk]
  · have : k = xs.size := by simp at h₂; omega
    simp [this]

/-- A new instance reads only the property count and the namespace of its
class, which the count of linked instances leaves alone. -/
theorem InstanceRecord.new_withRefCount {c : ClassId} {cr : ClassRecord} (hc : cr.Sound) (m : Nat)
    (refSlots : UInt32) :
    InstanceRecord.new c ⟨{ cr.record with refCount := m }⟩ refSlots = InstanceRecord.new c cr refSlots := by
  have hfixed : ({ cr.record with refCount := m } : Record).fixedSize = cr.record.fixedSize := rfl
  have htext : ({ cr.record with refCount := m } : Record).text 1 = cr.record.text 1 :=
    Record.text_congr (by rfl) hfixed (by rfl) hc.record.slotsInHeap 1
  have hns : (⟨{ cr.record with refCount := m }⟩ : ClassRecord).ns = cr.ns := by
    simp only [ClassRecord.ns, htext]
  have hcount : (⟨{ cr.record with refCount := m }⟩ : ClassRecord).propertyCount = cr.propertyCount := rfl
  unfold InstanceRecord.new
  rw [hns, hcount]

/-- An instance with one reference slot references what its token names. -/
theorem InstanceRecord.references_of_tokens_eq {i : InstanceRecord} {tok : Nat} (h : i.record.tokens = [tok]) :
    i.references = (InstanceId.ofToken? tok).toList := by
  cases tok <;>
    simp [InstanceRecord.references, InstanceRecord.extRefCount, Record.extRefCount, InstanceRecord.extRef,
      Record.token, h, InstanceId.ofToken?]

section Chain

variable {c : ClassId} {cr : ClassRecord} {i₀ : InstanceRecord}

/-- Appending an instance of class `c`, which counts `m` instances: the new
instance is the one `InstanceRecord.new` makes, and the class counts one
more. -/
theorem addInstance_eq_ok_of_new {a : Arena} {m : Nat} {refSlots : UInt32} (hc : cr.Sound)
    (hnew : InstanceRecord.new c cr refSlots = .ok i₀) (hcls : a.cls c = some ⟨{ cr.record with refCount := m }⟩) :
    a.addInstance c refSlots = .ok (⟨a.instances.size⟩,
      { classes := a.classes.set! c.index (⟨{ cr.record with refCount := m }⟩ : ClassRecord).addRef,
        instances := a.instances.push i₀ }) := by
  simp [Arena.addInstance, hcls, InstanceRecord.new_withRefCount hc, hnew]

/-- The class of an appended instance counts one more, up to `maxU32`. -/
theorem Arena.cls_set_addRef {a : Arena} {m : Nat} (hcls : a.cls c = some ⟨{ cr.record with refCount := m }⟩)
    (is : Array InstanceRecord) :
    (⟨a.classes.set! c.index (⟨{ cr.record with refCount := m }⟩ : ClassRecord).addRef, is⟩ : Arena).cls c =
      some ⟨{ cr.record with refCount := min (m + 1) maxU32 }⟩ := by
  have hlt : c.index < a.classes.size := (Array.getElem?_eq_some_iff.1 hcls).1
  simp [Arena.cls, hlt]
  rfl

/-- Pointing the single reference slot of the last instance, a new one, at
an earlier instance `prev`. -/
theorem setReference_last {a : Arena} (prev : InstanceId) (htok : i₀.record.tokens = [0])
    (hprev : prev.index < a.instances.size) (cs : Array ClassRecord) :
    ({ classes := cs, instances := a.instances.push i₀ } : Arena).setReference ⟨a.instances.size⟩ 0 (some prev) =
      .ok ⟨cs, a.instances.push { i₀ with record := { i₀.record with tokens := [prev.token] } }⟩ := by
  have hne : prev ≠ ⟨a.instances.size⟩ := fun h => by simp [h] at hprev
  simp [Arena.setReference, Arena.updateInstance, Arena.inst, InstanceRecord.setExtRef, Record.setToken, htok, hne,
    Nat.not_le.2 (Nat.lt_succ_of_lt hprev), Array.setIfInBounds_push_size]

/-- **Extending a chain.** From an arena whose last instance is `prev` and
whose class `c` counts some number of instances, appending `n` instances of
`c`, each pointing at the one before, keeps the arena reachable, leaves the
instances before alone, and ends at the last instance appended. The
induction is on `n`. -/
theorem extendChain_eq_ok (hc : cr.Sound) (hnew : InstanceRecord.new c cr 1 = .ok i₀)
    (htok : i₀.record.tokens = [0]) :
    ∀ (n : Nat) (prev : InstanceId) (a : Arena), prev.index + 1 = a.instanceCount →
      (∃ m, a.cls c = some ⟨{ cr.record with refCount := m }⟩) → a.Reachable →
      ∃ a', Arena.extendChain c n prev a = .ok (⟨prev.index + n⟩, a') ∧ a'.Reachable ∧
        a'.instanceCount = a.instanceCount + n ∧ (∀ y, y.index < a.instanceCount → a'.inst y = a.inst y) ∧
        ∀ k < n, ∃ r, a'.inst ⟨a.instanceCount + k⟩ = some r ∧ r.references = [⟨a.instanceCount + k - 1⟩]
  | 0, prev, a, _, _, ha => ⟨a, rfl, ha, rfl, fun _ _ => rfl, fun k hk => absurd hk (Nat.not_lt_zero k)⟩
  | n + 1, prev, a, hprev, ⟨m, hcls⟩, ha => by
    simp only [Arena.instanceCount] at hprev ⊢
    -- one instance appended, then pointed at `prev`
    obtain ⟨cs, hcs⟩ : ∃ cs, a.classes.set! c.index (⟨{ cr.record with refCount := m }⟩ : ClassRecord).addRef = cs :=
      ⟨_, rfl⟩
    obtain ⟨node, hnode⟩ : ∃ node : InstanceRecord,
        { i₀ with record := { i₀.record with tokens := [prev.token] } } = node := ⟨_, rfl⟩
    have hadd : a.addInstance c 1 = .ok (⟨a.instances.size⟩, ⟨cs, a.instances.push i₀⟩) := by
      rw [← hcs]
      exact addInstance_eq_ok_of_new hc hnew hcls
    have hset : (⟨cs, a.instances.push i₀⟩ : Arena).setReference ⟨a.instances.size⟩ 0 (some prev) =
        .ok ⟨cs, a.instances.push node⟩ := by
      rw [← hnode]
      exact setReference_last prev htok (by omega) cs
    have hc₂ : (⟨cs, a.instances.push node⟩ : Arena).cls c =
        some ⟨{ cr.record with refCount := min (m + 1) maxU32 }⟩ := by
      rw [← hcs]
      exact Arena.cls_set_addRef hcls _
    obtain ⟨a', hext, ha', hcount', hframe, hnodes⟩ := extendChain_eq_ok hc hnew htok n ⟨a.instances.size⟩
      ⟨cs, a.instances.push node⟩ (by simp [Arena.instanceCount]) ⟨_, hc₂⟩
      (.step (.step ha (.addInstance hadd)) (.setReference hset))
    simp only [Arena.instanceCount, Array.size_push] at hcount' hframe hnodes
    refine ⟨a', ?_, ha', by omega, fun y hy => ?_, fun k hk => ?_⟩
    · rw [Arena.extendChain, hadd, Except.ok_bind]
      dsimp only
      rw [hset, Except.ok_bind, hext]
      congr 3
      dsimp only
      omega
    · rw [hframe y (by omega)]
      simp [Arena.inst, Array.getElem?_push, Nat.ne_of_lt hy]
    · cases k with
      | zero =>
        -- the node appended first points at `prev`
        refine ⟨node, ?_, ?_⟩
        · rw [hframe _ (by simp)]
          simp [Arena.inst]
        · rw [InstanceRecord.references_of_tokens_eq (by rw [← hnode])]
          have hidx : a.instances.size - 1 = prev.index := by omega
          simp [InstanceId.token, InstanceId.ofToken?, hidx]
      | succ k =>
        obtain ⟨r, hr, hrefs⟩ := hnodes k (by omega)
        refine ⟨r, by rw [← hr]; congr 2; omega, by rw [hrefs]; congr 3; omega⟩

/-- **Building a chain.** Appending a chain of `n + 1` instances of class
`c` to an arena: the first instance references nothing, each later one the
one before, the instances before are left alone, and the arena stays
reachable. -/
theorem addChain_eq_ok (hc : cr.Sound) (hnew : InstanceRecord.new c cr 1 = .ok i₀) {a : Arena}
    (hcls : a.cls c = some cr) (ha : a.Reachable) (n : Nat) :
    ∃ a', a.addChain c (n + 1) = .ok (⟨a.instanceCount⟩, ⟨a.instanceCount + n⟩, a') ∧ a'.Reachable ∧
      a'.instanceCount = a.instanceCount + (n + 1) ∧ (∀ y, y.index < a.instanceCount → a'.inst y = a.inst y) ∧
      (∃ r, a'.inst ⟨a.instanceCount⟩ = some r ∧ r.references = []) ∧
      ∀ k < n, ∃ r, a'.inst ⟨a.instanceCount + k + 1⟩ = some r ∧ r.references = [⟨a.instanceCount + k⟩] := by
  have htok : i₀.record.tokens = [0] := by simpa using (InstanceRecord.new_eq_ok hnew).2.2.2
  simp only [Arena.instanceCount]
  obtain ⟨cs, hcs⟩ : ∃ cs, a.classes.set! c.index cr.addRef = cs := ⟨_, rfl⟩
  have hadd : a.addInstance c 1 = .ok (⟨a.instances.size⟩, ⟨cs, a.instances.push i₀⟩) := by
    rw [← hcs]
    exact addInstance_eq_ok_of_new (m := cr.record.refCount) hc hnew hcls
  have hc₁ : (⟨cs, a.instances.push i₀⟩ : Arena).cls c =
      some ⟨{ cr.record with refCount := min (cr.record.refCount + 1) maxU32 }⟩ := by
    rw [← hcs]
    exact Arena.cls_set_addRef (m := cr.record.refCount) hcls _
  obtain ⟨a', hext, ha', hcount', hframe, hnodes⟩ := extendChain_eq_ok hc hnew htok n ⟨a.instances.size⟩
    ⟨cs, a.instances.push i₀⟩ (by simp [Arena.instanceCount]) ⟨_, hc₁⟩ (.step ha (.addInstance hadd))
  simp only [Arena.instanceCount, Array.size_push] at hcount' hframe hnodes
  refine ⟨a', ?_, ha', by omega, fun y hy => ?_, ⟨i₀, ?_, ?_⟩, fun k hk => ?_⟩
  · simp only [Arena.addChain, hadd, Except.ok_bind, Nat.add_sub_cancel, hext]
    rfl
  · rw [hframe y (by omega)]
    simp [Arena.inst, Array.getElem?_push, Nat.ne_of_lt hy]
  · rw [hframe _ (by simp)]
    simp [Arena.inst]
  · simp [InstanceRecord.references_of_tokens_eq htok, InstanceId.ofToken?]
  · obtain ⟨r, hr, hrefs⟩ := hnodes k hk
    refine ⟨r, by rw [← hr]; congr 2; omega, by rw [hrefs]; congr 3; omega⟩

end Chain


/-! ## The arena of a chain -/

/-- **The arena of a chain.** Building a chain of `n + 1` instances of a new
class in the empty arena gives a reachable arena of `n + 1` instances in
which each instance but the first references the one before, and the first
references nothing. -/
theorem chainArena_eq_ok {name ns : String} {props : List String} {c : ClassRecord} {i₀ : InstanceRecord}
    (hc : ClassRecord.new name ns props = .ok c) (hi : InstanceRecord.new ⟨0⟩ c 1 = .ok i₀) (n : Nat) :
    ∃ a, (Arena.empty.addClass c).2.addChain ⟨0⟩ (n + 1) = .ok (⟨0⟩, ⟨n⟩, a) ∧ a.Reachable ∧
      a.instanceCount = n + 1 ∧ ∀ y, a.references y = if 1 ≤ y.index ∧ y.index ≤ n then [⟨y.index - 1⟩] else [] := by
  have hcls : (Arena.empty.addClass c).2.cls ⟨0⟩ = some c := by simp [Arena.addClass, Arena.cls, Arena.empty]
  obtain ⟨a, hchain, ha, hcount, -, ⟨r₀, hr₀, hrefs₀⟩, hnodes⟩ :=
    addChain_eq_ok (ClassRecord.new_eq_ok hc).1 hi hcls (.step .empty (.addClass Arena.empty hc)) n
  have hzero : (Arena.empty.addClass c).2.instanceCount = 0 := rfl
  simp only [hzero, Nat.zero_add] at hchain hcount hr₀ hnodes
  refine ⟨a, hchain, ha, hcount, ?_⟩
  rintro ⟨p⟩
  dsimp only
  by_cases hp : 1 ≤ p ∧ p ≤ n
  · -- a later instance of the chain
    obtain ⟨r, hr, hrefs⟩ := hnodes (p - 1) (by omega)
    rw [if_pos hp, show p = p - 1 + 1 by omega, Arena.references_of_inst hr, hrefs]
    simp
  · rw [if_neg hp]
    by_cases h0 : p = 0
    · rw [h0, Arena.references_of_inst hr₀, hrefs₀]
    · -- past the chain there is no instance
      have hnone : a.inst ⟨p⟩ = none := by
        simp only [Arena.inst, Arena.instanceCount] at hcount ⊢
        exact Array.getElem?_eq_none (by omega)
      simp [Arena.references, hnone]


/-! ## Writing a chain and reading it back -/

/-- A split of the handles `0, …, m - 1` around one of them: the handles
before it are those below its position. -/
theorem eq_of_append_cons_eq_map_range {m : Nat} {pre post : List InstanceId} {x : InstanceId}
    (h : pre ++ x :: post = (List.range m).map (⟨·⟩)) :
    pre = (List.range pre.length).map (⟨·⟩) ∧ x = ⟨pre.length⟩ := by
  have hlen : pre.length < m := by
    have := congrArg List.length h
    simp only [List.length_append, List.length_cons, List.length_map, List.length_range] at this
    omega
  constructor
  · have htake := congrArg (List.take pre.length) h
    rw [List.take_left, ← List.map_take, List.take_range, Nat.min_eq_left (Nat.le_of_lt hlen)] at htake
    exact htake
  · have hget : (pre ++ x :: post)[pre.length]? = ((List.range m).map (⟨·⟩))[pre.length]? := by rw [h]
    simpa [List.getElem?_range hlen] using hget

/-- An instance handle names an instance exactly when it is below the count. -/
theorem Arena.isSome_inst_iff (a : Arena) (y : InstanceId) : (a.inst y).isSome ↔ y.index < a.instanceCount := by
  simp only [Arena.inst, Arena.instanceCount]
  rw [Option.isSome_iff_exists]
  constructor
  · rintro ⟨r, hr⟩
    exact (Array.getElem?_eq_some_iff.1 hr).1
  · intro hy
    exact ⟨_, Array.getElem?_eq_getElem hy⟩

section Written

variable {a : Arena} {n : Nat}

/-- Every instance of an arena is reached from the list of all its handles. -/
theorem Arena.reachableFrom_range_iff (ha : a.Inv) (x : InstanceId) :
    a.ReachableFrom ((List.range a.instanceCount).map (⟨·⟩)) x ↔ (a.inst x).isSome := by
  refine ⟨fun hx => hx.isSome ha fun y hy => ?_, fun hx => .top (List.mem_map.2 ⟨x.index, ?_, rfl⟩)⟩
  · obtain ⟨p, hp, rfl⟩ := List.mem_map.1 hy
    exact (a.isSome_inst_iff _).2 (List.mem_range.1 hp)
  · exact List.mem_range.2 ((a.isSome_inst_iff x).1 hx)

/-- **A chain, written from all its instances in order, is written**: each
instance is visited after the one it references, and a chain of at most
`maxU32` instances has at most as many references. -/
theorem chain_serialize_ok (ha : a.Inv) (hcount : a.instanceCount = n + 1) (hn : n + 1 ≤ maxU32)
    (hrefs : ∀ y, a.references y = if 1 ≤ y.index ∧ y.index ≤ n then [⟨y.index - 1⟩] else []) :
    ∃ t bytes, Tables.ofTops a ((List.range (n + 1)).map (⟨·⟩)) = .ok t ∧
      serialize a ((List.range (n + 1)).map (⟨·⟩)) = .ok bytes := by
  have hsome : ∀ y, (a.inst y).isSome ↔ y.index ≤ n := fun y => by
    rw [a.isSome_inst_iff, hcount]
    omega
  -- each instance is listed after the one it references
  obtain ⟨t, ht⟩ : ∃ t, Tables.ofTops a ((List.range (n + 1)).map (⟨·⟩)) = .ok t :=
    ofTops_ok_of_refs_before fun pre x post hsplit => by
      obtain ⟨hpre, rfl⟩ := eq_of_append_cons_eq_map_range hsplit.symm
      have hlen : pre.length ≤ n := by
        have := congrArg List.length hsplit
        simp only [List.length_append, List.length_cons, List.length_map, List.length_range] at this
        omega
      have hmem : ∀ k < pre.length, (⟨k⟩ : InstanceId) ∈ pre := by
        intro k hk
        rw [hpre]
        exact List.mem_map.2 ⟨k, List.mem_range.2 hk, rfl⟩
      obtain ⟨r, hr⟩ := Option.isSome_iff_exists.1 ((hsome ⟨pre.length⟩).2 hlen)
      refine ⟨r, hr, fun y hy => ?_⟩
      rw [← Arena.references_of_inst hr, hrefs] at hy
      split at hy
      · rename_i hpos
        rw [List.mem_singleton.1 hy]
        exact hmem _ (by dsimp only at hpos ⊢; omega)
      · cases hy
  have hall : ∀ x, a.ReachableFrom ((List.range (n + 1)).map (⟨·⟩)) x ↔ (a.inst x).isSome := by
    rw [← hcount]
    exact a.reachableFrom_range_iff ha
  -- at most one reference per instance
  have hsum : (a.instances.toList.map (·.references.length)).sum ≤ maxU32 := by
    have hle : ∀ k ∈ a.instances.toList.map (·.references.length), k ≤ 1 := by
      intro k hk
      obtain ⟨i, hi, rfl⟩ := List.mem_map.1 hk
      obtain ⟨p, hp⟩ := List.mem_iff_getElem?.1 hi
      rw [← Arena.references_of_inst (y := ⟨p⟩) (by simpa [Arena.inst] using hp), hrefs]
      split <;> simp
    have hle' : (a.instances.toList.map (·.references.length)).sum ≤ a.instances.size := by
      simpa using List.sum_le_card_nsmul _ 1 hle
    simp only [Arena.instanceCount] at hcount
    omega
  obtain ⟨bytes, hser⟩ := serialize_ok_of_reachable ha ht hall (by omega) hsum
  exact ⟨t, bytes, ht, hser⟩


/-- **A chain read back is a chain.** Reading the stream of a chain of
`n + 1` instances into the empty arena gives distinct instances
`φ 0, …, φ n`, each after the first referencing only the one before, and
the last is the only top-level instance. -/
theorem chain_deserialize (ha : a.Inv) (hcount : a.instanceCount = n + 1) (hn : n + 1 ≤ maxU32)
    (hrefs : ∀ y, a.references y = if 1 ≤ y.index ∧ y.index ≤ n then [⟨y.index - 1⟩] else [])
    {bytes : List UInt8} (hser : serialize a ((List.range (n + 1)).map (⟨·⟩)) = .ok bytes) :
    ∃ (tops : List InstanceId) (A : Arena) (φ : Nat → InstanceId), deserialize bytes Arena.empty = .ok (tops, A) ∧
      (∀ i j, i ≤ n → j ≤ n → φ i = φ j → i = j) ∧
      (∀ k < n, ∃ r, A.inst (φ (k + 1)) = some r ∧ r.references = [φ k]) ∧ tops = [φ n] := by
  obtain ⟨t, tops, A, ht, hdes, -, hcopies, -, htops⟩ :=
    deserialize_empty_of_serialize ha (by simp only [maxU32, maxU64] at hn ⊢; omega) hser
  have hinv := (ofTops_inv ht).1
  -- every instance of the chain is written, and nothing else
  have hmem : ∀ y, y ∈ t.instanceOrder ↔ y.index ≤ n := fun y => by
    rw [mem_ofTops_iff ht, ← hcount, a.reachableFrom_range_iff ha, a.isSome_inst_iff, hcount]
    omega
  refine ⟨tops, A, fun p => t.image 0 ⟨p⟩, hdes, fun i j hi hj hij => ?_, fun k hk => ?_, ?_⟩
  · -- the image of a written instance is its position in the order
    simp only [Tables.image, InstanceId.mk.injEq, Nat.zero_add] at hij
    have := (List.idxOf_inj (Array.mem_toList_iff.2 ((hmem ⟨i⟩).2 hi))).1 hij
    simpa using this
  · obtain ⟨ix, iy, -, -, hix, hiy, -, -, -, hcopy⟩ := hcopies ⟨k + 1⟩ ((hmem _).2 (by dsimp only; omega))
    refine ⟨iy, hiy, ?_⟩
    rw [hcopy.references, ← Arena.references_of_inst hix, hrefs, if_pos (by dsimp only; omega)]
    rfl
  · -- the last instance is the only one no instance references
    rw [htops, List.filter_eq_singleton_of_nodup hinv.nodup (Array.mem_toList_iff.2 ((hmem ⟨n⟩).2 le_rfl))]
    · rfl
    · refine List.all_eq_true.2 fun y hy => decide_eq_true fun href => ?_
      rw [hrefs] at href
      split at href
      · have := List.mem_singleton.1 href
        simp only [InstanceId.mk.injEq] at this
        omega
      · cases href
    · intro z hz hunref
      have hzn := (hmem z).1 (Array.mem_toList_iff.1 hz)
      by_contra hne
      have hlt : z.index < n := by
        rcases z with ⟨p⟩
        simp only [ne_eq, InstanceId.mk.injEq] at hne
        dsimp only at hzn ⊢
        omega
      -- the next instance of the chain references it
      have hnext : z ∈ a.references ⟨z.index + 1⟩ := by
        rw [hrefs, if_pos (by dsimp only; omega)]
        simp
      have := List.all_eq_true.1 hunref ⟨z.index + 1⟩ (Array.mem_toList_iff.2 ((hmem _).2 hlt))
      exact absurd hnext (of_decide_eq_true this)

/-- **A chain longer than the budget, read back, cannot be written again**
from its top-level instance: the visit of the last instance walks the whole
chain, one level of the budget per reference. -/
theorem chain_reencode_error (ha : a.Inv) (hcount : a.instanceCount = n + 1) (hn : n + 1 ≤ maxU32)
    (hrefs : ∀ y, a.references y = if 1 ≤ y.index ∧ y.index ≤ n then [⟨y.index - 1⟩] else [])
    (hdeep : maxReferenceDepth + 1 ≤ n) {bytes : List UInt8}
    (hser : serialize a ((List.range (n + 1)).map (⟨·⟩)) = .ok bytes) :
    ∃ tops A, deserialize bytes Arena.empty = .ok (tops, A) ∧ ∃ e, serialize A tops = .error e := by
  obtain ⟨tops, A, φ, hdes, hinj, hchain, rfl⟩ := chain_deserialize ha hcount hn hrefs hser
  obtain ⟨e, t', hvisit⟩ := Tables.visit_chain_error hinj hchain n (maxReferenceDepth + 1) Tables.empty le_rfl hdeep
    fun k _ => by simp [Tables.empty, Tables.visitOf]
  refine ⟨[φ n], A, hdes, e, ?_⟩
  simp [serialize, Tables.ofTops, Tables.appendInstance, hvisit]

end Written

/-! ## The stream of a chain -/

/-- The stream a session makes by building a chain of `n` instances of a
class `CIM_Node` with no properties and writing all of them, in order. -/
def chainStream (n : Nat) : Except StreamError (List UInt8) := do
  let c ← ClassRecord.new "CIM_Node" "root" []
  let (_, _, a) ← (Arena.empty.addClass c).2.addChain ⟨0⟩ n
  serialize a ((List.range n).map (⟨·⟩))

/-- **The stream of a chain too long for the budget decodes, and what it
decodes to cannot be written again.** For a chain of `n + 1` instances with
`maxReferenceDepth < n` and at most `maxU32` instances. -/
theorem chainStream_reencode_error {n : Nat} (hdeep : maxReferenceDepth + 1 ≤ n) (hn : n + 1 ≤ maxU32) :
    ∃ bytes tops A, chainStream (n + 1) = .ok bytes ∧ deserialize bytes Arena.empty = .ok (tops, A) ∧
      ∃ e, serialize A tops = .error e := by
  -- the class and its first instance, computed
  obtain ⟨⟨c, i₀⟩, hnew⟩ := Except.exists_eq_ok_of_isOk (do
      let c ← ClassRecord.new "CIM_Node" "root" []
      let i ← InstanceRecord.new ⟨0⟩ c 1
      pure (c, i)) (by decide +kernel)
  obtain ⟨c', hc, hnew⟩ := Except.bind_eq_ok.1 hnew
  obtain ⟨i', hi, hnew⟩ := Except.bind_eq_ok.1 hnew
  cases hnew
  obtain ⟨a, hchain, ha, hcount, hrefs⟩ := chainArena_eq_ok hc hi n
  obtain ⟨t, bytes, -, hser⟩ := chain_serialize_ok ha.inv hcount hn hrefs
  obtain ⟨tops, A, hdes, herr⟩ := chain_reencode_error ha.inv hcount hn hrefs hdeep hser
  refine ⟨bytes, tops, A, ?_, hdes, herr⟩
  simp only [chainStream, hc, Except.ok_bind, hchain]
  exact hser

end CimBroker.Stream

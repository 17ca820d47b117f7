import CimBroker.Proofs.Stream.Acyclic
import CimBroker.Proofs.Stream.Chain

/-!
# Why the writer refuses a graph

The walk of the writer keeps the marks in progress on the path it is on
(`Tables.LeadsTo`), and spends its budget only along that path. So in an
arena whose references name existing instances, a failed walk has a cause in
the graph (`Refusal`): a top-level instance that does not exist, an instance
on a cycle of references reachable from the top-level instances, or a chain
of more than `maxReferenceDepth` references from one of them. After the
walk, the writer checks its 32-bit counts, which adds one more cause: more
instances reachable, or more references among them, than such a count
holds. With the walks of graphs without cycles, the writer of a reachable
arena fails only for a refusal, and succeeds where there is no cause for
one.

## Main results

* `Tables.visit_eq_error` — the ways one visit fails.
* `ofTops_refusal` — a failed walk has a cause in the graph.
* `serialize_refusal` — the writer of a reachable arena fails only for a
  refusal, and succeeds when there is none.
* `serialize_count_overflow` — a reachable arena with no cycle and no long
  chain whose writer fails on the count of instances.
-/

namespace CimBroker.Stream

/-- The causes for which the writer refuses the instances `tops` of arena
`a`, each with the error it reports. -/
inductive Refusal (a : Arena) (tops : List InstanceId) : StreamError → Prop
  /-- A top-level instance does not exist. -/
  | unknownTop {x : InstanceId} : x ∈ tops → a.inst x = none → Refusal a tops (.unknownInstance x)
  /-- An instance reachable from the top-level ones lies on a cycle. -/
  | cycle {x : InstanceId} : a.ReachableFrom tops x → a.OnCycle x → Refusal a tops (.cyclicReference x)
  /-- A chain of more than `maxReferenceDepth` references leaves a top-level
  instance. -/
  | tooDeep {x : InstanceId} {n : Nat} : x ∈ tops → maxReferenceDepth < n → a.RefPath x n →
      Refusal a tops (.referenceTooDeep maxReferenceDepth)
  /-- More instances are reachable, or more references leave them, than a
  32-bit count holds. -/
  | countOverflow {n : Nat} {l : List InstanceId} : l.Nodup → (∀ y ∈ l, a.ReachableFrom tops y) →
      maxU32 < n → n ≤ l.length ∨ n ≤ (l.map fun y => (a.references y).length).sum →
      Refusal a tops (.countOverflow n)

/-- The instances reachable from `tops` fit the writer's 32-bit counts: at
most `maxU32` of them, with at most `maxU32` references among them. -/
def Arena.CountsFit (a : Arena) (tops : List InstanceId) : Prop :=
  ∀ l : List InstanceId, l.Nodup → (∀ y ∈ l, a.ReachableFrom tops y) →
    l.length ≤ maxU32 ∧ (l.map fun y => (a.references y).length).sum ≤ maxU32

namespace Tables

variable {a : Arena}

/-! ## One visit -/

/-- **How a visit fails.** Its instance is in progress, a cycle; or it is
new and the budget is spent; or it is new and does not exist; or it is new
and the walk of its references, one level down, failed with the same
error. -/
theorem visit_eq_error {b : Nat} {i : InstanceId} {t t' : Tables} {e : StreamError}
    (h : visit a b i t = (.error e, t')) :
    (t.visitOf i = some .inProgress ∧ e = .cyclicReference i) ∨
      (t.visitOf i = none ∧ b = 0 ∧ e = .referenceTooDeep maxReferenceDepth) ∨
      (t.visitOf i = none ∧ a.inst i = none ∧ e = .unknownInstance i) ∨
      ∃ b' r, b = b' + 1 ∧ t.visitOf i = none ∧ a.inst i = some r ∧
        r.references.foldl (walkReference (visit a b')) (.ok (), t.mark i .inProgress) = (.error e, t') := by
  unfold visit at h
  split at h
  · simp at h
  · rename_i hprog
    simp only [Prod.mk.injEq, Except.error.injEq] at h
    exact .inl ⟨hprog, h.1.symm⟩
  · rename_i hnone
    split at h
    · simp only [Prod.mk.injEq, Except.error.injEq] at h
      exact .inr (.inl ⟨hnone, rfl, h.1.symm⟩)
    · rename_i b'
      split at h
      · rename_i hr
        simp only [Prod.mk.injEq, Except.error.injEq] at h
        exact .inr (.inr (.inl ⟨hnone, hr, h.1.symm⟩))
      · rename_i r hr
        split at h
        · rename_i e' t₁ hwalk
          simp only [Prod.mk.injEq, Except.error.injEq] at h
          obtain ⟨rfl, rfl⟩ := h
          exact .inr (.inr (.inr ⟨b', r, rfl, hnone, hr, hwalk⟩))
        · rename_i t₁ _
          revert h
          cases t₁.register i r.cls
          simp

/-- **A failed walk of references is a failed visit of one of them**, made
from tables with the marks in progress of the start, when every successful
visit leaves those marks as they were. The induction is on the targets. -/
theorem foldl_walkReference_eq_error {visitTarget : InstanceId → Tables → Except StreamError Nat × Tables}
    (hv : ∀ y t t' k, visitTarget y t = (.ok k, t') →
      ∀ z, t'.visitOf z = some .inProgress ↔ t.visitOf z = some .inProgress) :
    ∀ (targets : List InstanceId) (t t' : Tables) (e : StreamError),
      targets.foldl (walkReference visitTarget) (.ok (), t) = (.error e, t') →
      ∃ y ∈ targets, ∃ t₁ t₂, (∀ z, t₁.visitOf z = some .inProgress ↔ t.visitOf z = some .inProgress) ∧
        visitTarget y t₁ = (.error e, t₂)
  | [], t, t', e, h => by simp at h
  | y :: ys, t, t', e, h => by
    rw [List.foldl_cons] at h
    cases hvy : visitTarget y t with
    | mk result t₁ =>
      cases result with
      | error e' =>
        simp only [walkReference, hvy, foldl_walkReference_error, Prod.mk.injEq, Except.error.injEq] at h
        obtain ⟨rfl, -⟩ := h
        exact ⟨y, List.mem_cons_self, t, t₁, fun _ => Iff.rfl, hvy⟩
      | ok k =>
        simp only [walkReference, hvy] at h
        obtain ⟨y', hy', t₂, t₃, hsame, hfail⟩ := foldl_walkReference_eq_error hv ys _ t' e h
        refine ⟨y', List.mem_cons_of_mem y hy', t₂, t₃, fun z => ?_, hfail⟩
        rw [hsame z, visitOf_pushReference]
        exact hv y t t₁ k hvy z

/-- **A failed visit has a cause in the graph.** In an arena whose
references name existing instances, visit `x` at the end of a chain of `d`
references from a top-level instance, with `b` levels of budget left where
`b + d = maxReferenceDepth + 1`, while the marks in progress lead to `x`. If
the visit fails, its error is a refusal of `tops`. The induction is on the
budget: one level down the chain grows by one reference, and the path of the
walk goes on through `x`. -/
theorem visit_error_refusal (hrefs : ∀ x r, a.inst x = some r → ∀ y ∈ r.references, (a.inst y).isSome)
    {tops : List InstanceId} {top : InstanceId} (htop : top ∈ tops) :
    ∀ (b d : Nat) (x : InstanceId) (t t' : Tables) (e : StreamError), b + d = maxReferenceDepth + 1 →
      a.Chain top x d → t.LeadsTo a x → visit a b x t = (.error e, t') → Refusal a tops e
  | b, d, x, t, t', e, hbd, hchain, hpath, h => by
    have hreach : a.ReachableFrom tops x := (Arena.ReachableFrom.top htop).of_chain hchain
    rcases visit_eq_error h with ⟨hprog, rfl⟩ | ⟨-, rfl, rfl⟩ | ⟨-, hnone, rfl⟩ |
      ⟨b', r, rfl, -, hr, hwalk⟩
    · -- met again while in progress: the path of the walk from `x` back to it is a cycle
      exact .cycle hreach (hpath x hprog)
    · -- the budget is spent: the chain from the top-level instance is too long
      exact .tooDeep htop (show maxReferenceDepth < d + 0 by omega) (hchain.refPath_append (.nil x))
    · -- only a top-level instance can be missing, since references name existing instances
      cases hchain with
      | nil => exact .unknownTop htop hnone
      | snoc _ hr' hx' =>
        have hsome := hrefs _ _ hr' x hx'
        simp [hnone] at hsome
    · obtain ⟨y, hy, t₁, t₂, hsame, hfail⟩ :=
        foldl_walkReference_eq_error (visit_eq_ok_inProgress b') r.references _ t' e hwalk
      exact visit_error_refusal hrefs htop b' (d + 1) y t₁ t₂ e (by omega) (.snoc hchain hr hy)
        ((hpath.mark hr hy).of_inProgress_iff hsame) hfail

end Tables

/-! ## A whole walk -/

variable {a : Arena} {tops : List InstanceId} {t : Tables}

/-- **A failed walk is a failed top-level visit.** When the empty tables
have property `P` and every successful top-level visit keeps it, a failed
walk is the failed visit of a top-level instance from tables with `P`. The
induction is on the instances still to visit. -/
theorem Tables.ofTops_eq_error (P : Tables → Prop) (h₀ : P Tables.empty)
    (hstep : ∀ x t₀ k t₁, P t₀ → t₀.appendInstance a x = (.ok k, t₁) → P t₁) {e : StreamError}
    (h : Tables.ofTops a tops = .error e) :
    ∃ x ∈ tops, ∃ t₀ t₁, P t₀ ∧ t₀.appendInstance a x = (.error e, t₁) := by
  rw [Tables.ofTops_eq_foldlM] at h
  suffices key : ∀ (xs : List InstanceId) (t₀ : Tables), (∀ x ∈ xs, x ∈ tops) → P t₀ →
      xs.foldlM (Tables.visitTop a) t₀ = .error e → ∃ x ∈ tops, ∃ t₀ t₁, P t₀ ∧ t₀.appendInstance a x = (.error e, t₁) from
    key tops Tables.empty (fun _ hx => hx) h₀ h
  intro xs
  induction xs with
  | nil => exact fun t₀ _ _ h => by cases h
  | cons x xs ih =>
    intro t₀ hxs hP h
    rw [List.foldlM_cons] at h
    cases happ : t₀.appendInstance a x with
    | mk result t₁ =>
      cases result with
      | ok k =>
        rw [Tables.visitTop_eq_ok.2 ⟨k, happ⟩, Except.ok_bind] at h
        exact ih t₁ (fun y hy => hxs y (List.mem_cons_of_mem x hy)) (hstep x t₀ k t₁ hP happ) h
      | error e' =>
        have hfail : Tables.visitTop a t₀ x = .error e' := by simp [Tables.visitTop, happ]
        rw [hfail, Except.error_bind, Except.error.injEq] at h
        subst h
        exact ⟨x, hxs x List.mem_cons_self, t₀, t₁, hP, happ⟩

/-- **A failed walk has a cause in the graph**, in an arena whose references
name existing instances. Between two top-level visits no instance is in
progress, since a successful visit leaves the marks in progress as they
were. -/
theorem ofTops_refusal (hrefs : ∀ x r, a.inst x = some r → ∀ y ∈ r.references, (a.inst y).isSome)
    {e : StreamError} (h : Tables.ofTops a tops = .error e) : Refusal a tops e := by
  obtain ⟨x, hx, t₀, t₁, hnone, hfail⟩ := Tables.ofTops_eq_error (fun t₀ => ∀ z, t₀.visitOf z ≠ some .inProgress)
    (by simp [Tables.empty, Tables.visitOf])
    (fun x t₀ k t₁ hnone happ z hz => hnone z ((Tables.visit_eq_ok_inProgress _ x t₀ t₁ k happ z).1 hz)) h
  exact Tables.visit_error_refusal hrefs hx (maxReferenceDepth + 1) 0 x t₀ t₁ e rfl .nil
    (fun z hz => absurd hz (hnone z)) hfail

/-! ## The writer -/

/-- A count is refused exactly when it does not fit 32 bits. -/
theorem putCount_eq_error {n : Nat} {e : StreamError} : putCount n = .error e ↔ maxU32 < n ∧ e = .countOverflow n := by
  unfold putCount
  split
  · rename_i h
    rw [Except.error.injEq]
    exact ⟨fun he => ⟨h, he.symm⟩, fun he => he.2.symm⟩
  · rename_i h
    simp only [reduceCtorEq, false_iff, not_and]
    exact fun hlt => absurd hlt h

/-- A table is refused exactly when its count is. -/
theorem putTable_eq_error {es : List Entry} {e : StreamError} :
    putTable es = .error e ↔ maxU32 < es.length ∧ e = .countOverflow es.length := by
  rw [← putCount_eq_error]
  unfold putTable
  cases putCount es.length <;> simp

/-- A sequence fails with the error of its second step when its first step
succeeds and the second fails on every value. -/
theorem bind_eq_error_of_ok {ε α β : Type} {m : Except ε α} {f : α → Except ε β} {e : ε}
    (hm : ∃ y, m = .ok y) (hf : ∀ y, f y = .error e) : m >>= f = .error e := by
  obtain ⟨y, rfl⟩ := hm
  exact hf y

/-- **Why a walked graph is refused.** Once the walk of an arena with the
invariant succeeds, the writer fails only on a count that does not fit: of
the classes (no more than the instances written), of the instances written,
or of the reference entries. The classes and instances it looks up all
exist. -/
theorem serialize_eq_error_of_ofTops (ha : a.Inv) (ht : Tables.ofTops a tops = .ok t) {e : StreamError}
    (h : serialize a tops = .error e) :
    ∃ n, e = .countOverflow n ∧ maxU32 < n ∧ (n ≤ t.instanceOrder.size ∨ n ≤ t.referenceResolution.size) := by
  have hinv := (ofTops_inv ht).1
  rw [serialize, ht, Except.ok_bind] at h
  -- the writer's steps in turn: each either fails or hands its result on
  rcases Except.bind_eq_error.1 h with hc | ⟨_, -, h⟩
  · obtain ⟨hlt, rfl⟩ := putCount_eq_error.1 hc
    exact ⟨_, rfl, hlt, .inl hinv.size_classTable_le⟩
  rcases Except.bind_eq_error.1 h with hm | ⟨_, -, h⟩
  · obtain ⟨c, hc, hce⟩ := exists_of_mapM_eq_error hm
    obtain ⟨cr, hcr⟩ := hinv.exists_cls ha (Array.mem_toList_iff.1 hc)
    simp [hcr] at hce
  rcases Except.bind_eq_error.1 h with hr | ⟨_, -, h⟩
  · obtain ⟨hlt, rfl⟩ := putTable_eq_error.1 hr
    exact ⟨_, rfl, hlt, .inl (by simp [hinv.size_classResolution])⟩
  rcases Except.bind_eq_error.1 h with hr | ⟨_, -, h⟩
  · obtain ⟨hlt, rfl⟩ := putTable_eq_error.1 hr
    exact ⟨_, rfl, hlt, .inr (by simp)⟩
  rcases Except.bind_eq_error.1 h with hm | ⟨_, -, h⟩
  · obtain ⟨x, hx, hxe⟩ := exists_of_mapM_eq_error hm
    obtain ⟨r, hr⟩ := hinv.exists_inst (Array.mem_toList_iff.1 hx)
    simp [hr] at hxe
  · cases h

/-- A walk whose classes fit their count but whose instances do not is
refused with the count of instances. -/
theorem serialize_eq_countOverflow (ha : a.Inv) (ht : Tables.ofTops a tops = .ok t)
    (hcls : t.classTable.size ≤ maxU32) (hover : maxU32 < t.instanceOrder.size) :
    serialize a tops = .error (.countOverflow t.instanceOrder.size) := by
  have hinv := (ofTops_inv ht).1
  have hsize : t.classResolution.toList.length = t.instanceOrder.size := by simp [hinv.size_classResolution]
  rw [serialize, ht, Except.ok_bind, putCount_eq_ok.2 ⟨hcls, rfl⟩, Except.ok_bind]
  refine bind_eq_error_of_ok (exists_mapM_eq_ok fun c hc => ?_) fun classes => ?_
  · obtain ⟨cr, hcr⟩ := hinv.exists_cls ha (Array.mem_toList_iff.1 hc)
    exact ⟨cr, by simp [hcr]⟩
  · rw [putTable_eq_error.2 ⟨hsize ▸ hover, rfl⟩, Except.error_bind, hsize]

/-- **The writer fails only for a cause in the graph, and otherwise
succeeds.** For a reachable arena, a failure of the writer is a refusal: a
missing top-level instance, a cycle reachable from the top-level instances,
a chain of more than `maxReferenceDepth` references from one of them, or a
count that does not fit 32 bits. When all top-level instances exist, no
cycle is reachable, no chain is too long and the counts fit, the writer
succeeds. -/
theorem serialize_refusal (ha : a.Reachable) (tops : List InstanceId) :
    (∀ e, serialize a tops = .error e → Refusal a tops e) ∧
      ((∀ x ∈ tops, (a.inst x).isSome) → (∀ x, a.ReachableFrom tops x → ¬ a.OnCycle x) →
        (∀ x ∈ tops, ∀ n, a.RefPath x n → n ≤ maxReferenceDepth) → a.CountsFit tops →
        ∃ bytes, serialize a tops = .ok bytes) := by
  have hinv := ha.inv
  have hrefs : ∀ x r, a.inst x = some r → ∀ y ∈ r.references, (a.inst y).isSome :=
    fun _ _ hr _ hy => hinv.isSome_of_mem_references hr hy
  refine ⟨fun e h => ?_, fun htops hacyc hdepth hfit => ?_⟩
  · cases hwalk : Tables.ofTops a tops with
    | error e' =>
      -- the walk failed, and the writer with it
      rw [serialize, hwalk, Except.error_bind, Except.error.injEq] at h
      exact h ▸ ofTops_refusal hrefs hwalk
    | ok t =>
      -- the walk succeeded: a count of the instances written or of their references overflows
      obtain ⟨n, rfl, hlt, hle⟩ := serialize_eq_error_of_ofTops hinv hwalk h
      have htinv := (ofTops_inv hwalk).1
      refine .countOverflow htinv.nodup (fun y hy => htinv.mem_R y (Array.mem_toList_iff.1 hy)) hlt ?_
      rcases hle with hle | hle
      · exact .inl (by simpa using hle)
      · exact .inr (Nat.le_trans hle (ofTops_appends hwalk).1)
  · obtain ⟨t, hwalk⟩ := ofTops_ok_of_acyclic hrefs htops hacyc hdepth
    have htinv := (ofTops_inv hwalk).1
    obtain ⟨hcount, hsum⟩ := hfit _ htinv.nodup fun y hy => htinv.mem_R y (Array.mem_toList_iff.1 hy)
    exact serialize_ok hinv hwalk (by simpa using hcount) (Nat.le_trans (ofTops_appends hwalk).1 hsum)

/-- Two instances of one class, each referencing the other: the shortest
cycle that `Arena.setReference` lets an arena have. -/
def cycleOfTwo : Except StreamError Arena := do
  let c ← ClassRecord.new "Node" "root" []
  let (x, a) ← (Arena.empty.addClass c).2.addInstance ⟨0⟩ 1
  let (y, a) ← a.addInstance ⟨0⟩ 1
  let a ← a.setReference x 0 (some y)
  a.setReference y 0 (some x)

/-- The arena of two instances referencing each other is reachable, its
writer started from the first refuses the cycle, and that refusal is one
the graph explains. -/
theorem serialize_refusal_cycle :
    ∃ a : Arena, cycleOfTwo = .ok a ∧ a.Reachable ∧ serialize a [⟨0⟩] = .error (.cyclicReference ⟨0⟩) ∧
      Refusal a [⟨0⟩] (.cyclicReference ⟨0⟩) := by
  obtain ⟨a, hcycle⟩ : ∃ a, cycleOfTwo = .ok a := ⟨_, rfl⟩
  have hserialize : cycleOfTwo.map (serialize · [⟨0⟩]) = .ok (.error (.cyclicReference ⟨0⟩)) := by decide
  rw [hcycle, Except.map_ok_eq, Except.ok.injEq] at hserialize
  -- the steps that built it
  have ha := hcycle
  unfold cycleOfTwo at ha
  obtain ⟨c, hc, ha⟩ := Except.bind_eq_ok.1 ha
  obtain ⟨⟨x, a₁⟩, hx, ha⟩ := Except.bind_eq_ok.1 ha
  obtain ⟨⟨y, a₂⟩, hy, ha⟩ := Except.bind_eq_ok.1 ha
  obtain ⟨a₃, hxy, hyx⟩ := Except.bind_eq_ok.1 ha
  have hr : a.Reachable :=
    .step (.step (.step (.step (.step .empty (.addClass Arena.empty hc)) (.addInstance hx)) (.addInstance hy))
      (.setReference hxy)) (.setReference hyx)
  exact ⟨a, hcycle, hr, hserialize, (serialize_refusal hr [⟨0⟩]).1 _ hserialize⟩

/-! ## A graph too large for the counts -/

/-- In an arena whose instances reference nothing, every chain of references
is empty. -/
theorem Arena.refPath_eq_zero (h : ∀ x r, a.inst x = some r → r.references = []) {x : InstanceId} {n : Nat}
    (hp : a.RefPath x n) : n = 0 := by
  cases hp with
  | nil => rfl
  | cons hr hy _ => simp [h _ _ hr] at hy

/-- A walk of an arena whose instances all have class `c` lists at most that
one class. -/
theorem Tables.Inv.size_classTable_le_one {R : InstanceId → Prop} (h : t.Inv a R) {c : ClassId}
    (hc : ∀ x r, a.inst x = some r → r.cls = c) : t.classTable.size ≤ 1 := by
  have hall : ∀ d ∈ t.classTable.toList, d = c := by
    intro d hd
    obtain ⟨x, r, -, hr, rfl⟩ := h.classes_used d (Array.mem_toList_iff.1 hd)
    exact hc x r hr
  have hle := List.nodup_replicate.1 (List.eq_replicate_iff.2 ⟨rfl, hall⟩ ▸ h.classes_nodup)
  simpa using hle

section Bulk

variable {c : ClassId} {cr : ClassRecord} {i₀ : InstanceRecord}

/-- **Appending instances without reference slots.** From a reachable arena
whose class `c` counts some number of instances, appending `n` instances of
`c` keeps the arena reachable and puts `n` copies of the new instance after
the instances there. The induction is on `n`. -/
theorem reachable_append_instances (hc : cr.Sound) (hnew : InstanceRecord.new c cr 0 = .ok i₀) :
    ∀ (n m : Nat) (a : Arena), a.Reachable → a.cls c = some ⟨{ cr.record with refCount := m }⟩ →
      ∃ a' : Arena, a'.Reachable ∧ a'.instances = a.instances ++ Array.replicate n i₀
  | 0, _, a, ha, _ => ⟨a, ha, by simp⟩
  | n + 1, m, a, ha, hcls => by
    obtain ⟨a', ha', hinst⟩ := reachable_append_instances hc hnew n (min (m + 1) maxU32) _
      (.step ha (.addInstance (addInstance_eq_ok_of_new hc hnew hcls))) (Arena.cls_set_addRef hcls _)
    refine ⟨a', ha', ?_⟩
    rw [hinst]
    apply Array.toList_inj.1
    simp [List.replicate_succ]

end Bulk

/-- **An arena of `n` instances of one class that reference nothing** is
reachable: a class without properties, then `n` instances of it without
reference slots. -/
theorem exists_reachable_replicate (n : Nat) :
    ∃ (a : Arena) (c : ClassId), a.Reachable ∧ a.instanceCount = n ∧
      ∀ x r, a.inst x = some r → r.references = [] ∧ r.cls = c := by
  obtain ⟨⟨cr, i₀⟩, hmade⟩ : ∃ p, (do
      let c ← ClassRecord.new "Node" "root" []
      let i ← InstanceRecord.new ⟨0⟩ c 0
      pure (c, i)) = Except.ok p := ⟨_, rfl⟩
  obtain ⟨cr', hcr, hmade⟩ := Except.bind_eq_ok.1 hmade
  obtain ⟨i', hi₀, hmade⟩ := Except.bind_eq_ok.1 hmade
  cases hmade
  obtain ⟨-, hcls₀, -, htok⟩ := InstanceRecord.new_eq_ok hi₀
  obtain ⟨a, ha, hinst⟩ := reachable_append_instances (ClassRecord.new_eq_ok hcr).1 hi₀ n cr.record.refCount _
    (.step .empty (.addClass Arena.empty hcr)) (by simp [Arena.addClass, Arena.cls, Arena.empty])
  -- the arena began with no instance, so each of its instances is the new one
  have hreplicate : a.instances = Array.replicate n i₀ := by
    rw [hinst]
    simp [Arena.addClass, Arena.empty]
  refine ⟨a, ⟨0⟩, ha, by simp [Arena.instanceCount, hreplicate], fun x r hr => ?_⟩
  simp only [Arena.inst, hreplicate, Array.getElem?_replicate] at hr
  split at hr
  · cases hr
    exact ⟨by simp [InstanceRecord.references, InstanceRecord.extRefCount, Record.extRefCount, htok], hcls₀⟩
  · cases hr

/-- **A graph too large for the writer's counts.** A reachable arena of
`maxU32 + 1` instances of one class and no references, written from all its
instances: every top-level instance exists, no cycle is reachable and no
chain of references is too long, and still the writer refuses it, since a
32-bit count cannot hold its instances. -/
theorem serialize_count_overflow :
    ∃ (a : Arena) (tops : List InstanceId), a.Reachable ∧ (∀ x ∈ tops, (a.inst x).isSome) ∧
      (∀ x, a.ReachableFrom tops x → ¬ a.OnCycle x) ∧ (∀ x ∈ tops, ∀ n, a.RefPath x n → n ≤ maxReferenceDepth) ∧
      serialize a tops = .error (.countOverflow (maxU32 + 1)) := by
  obtain ⟨a, c, ha, hcount, hrec⟩ := exists_reachable_replicate (maxU32 + 1)
  have hall := a.reachableFrom_range_iff ha.inv
  have hnoref : ∀ x r, a.inst x = some r → r.references = [] := fun x r hr => (hrec x r hr).1
  refine ⟨a, (List.range a.instanceCount).map (⟨·⟩), ha, fun x hx => (hall x).1 (.top hx), ?_, ?_, ?_⟩
  · -- a cycle is a chain of at least one reference
    rintro x - ⟨n, hn⟩
    have := Arena.refPath_eq_zero hnoref (hn.refPath_append (.nil x))
    omega
  · intro x _ n hn
    rw [Arena.refPath_eq_zero hnoref hn]
    exact Nat.zero_le _
  · -- the walk writes every instance, each after the nothing it references
    obtain ⟨t, hwalk⟩ : ∃ t, Tables.ofTops a ((List.range a.instanceCount).map (⟨·⟩)) = .ok t :=
      ofTops_ok_of_refs_before fun pre x post hsplit => by
        obtain ⟨r, hr⟩ := Option.isSome_iff_exists.1 ((hall x).1 (.top (by simp [hsplit])))
        exact ⟨r, hr, by simp [hnoref x r hr]⟩
    have hsize : t.instanceOrder.size = maxU32 + 1 := by
      simpa [hcount] using (instanceOrder_perm hwalk hall).length_eq
    -- the one class of the arena is listed once
    have hcls : t.classTable.size ≤ maxU32 :=
      Nat.le_trans ((ofTops_inv hwalk).1.size_classTable_le_one fun x r hr => (hrec x r hr).2) (by decide)
    rw [serialize_eq_countOverflow ha.inv hwalk hcls (by omega), hsize]

end CimBroker.Stream

import CimBroker.Proofs.Stream.Walk

/-!
# The resolution tables under any calls

Walking from an instance can fail: a reference names no instance, closes a
cycle, or leads deeper than 1024 levels. The tables keep what the failed
walk did: the instances it finished stay written, the reference entries it
pushed stay, and the instances it was still walking keep their in-progress
marks, so that a later walk through one of them fails as a cycle. Classes
may also be added to the class table directly, outside any walk.

None of this breaks the tables. Whatever walks and class additions ran on
one set of tables, and whatever each of them returned (`Tables.Reached`),
the tables are coherent (`Tables.Coherent`): no class and no instance is
listed twice, the class-resolution table pairs the token of each written
instance with the position of its class, every reference entry names a
written instance by its token and position, and every reference of a
written instance names one written before it. A walk that succeeds returns
the position its instance was written at, and a walk from an instance
already written returns that position and changes nothing.

## Main results

* `visit_coherent` — a visit keeps the tables coherent, whatever its outcome.
* `Reached.coherent` — the tables after any calls are coherent.
* `Reached.resolution` — what the tables after any calls hold, and what the
  next walk returns.
-/

namespace CimBroker.Stream

namespace Tables

variable {a : Arena} {t : Tables}

/-! ## Adding a class -/

/-- Adding a class directly keeps the tables coherent: a class already
listed keeps its position, and a new one goes at the end, behind every
position an entry names. -/
theorem Coherent.appendClass (h : t.Coherent a) (c : ClassId) : (t.appendClass c).2.Coherent a := by
  rcases appendClass_eq t c with ⟨k, -, happ⟩ | ⟨hnot, happ⟩
  · rw [happ]
    exact h
  · rw [happ]
    refine { h with classes_nodup := ?_, classEntry := ?_ }
    · simp only [Array.toList_push, List.nodup_append, List.nodup_singleton, List.mem_singleton]
      refine ⟨h.classes_nodup, trivial, ?_⟩
      rintro d hd _ rfl rfl
      exact hnot (Array.mem_toList_iff.1 hd)
    · intro k x hx
      obtain ⟨r, c', hr, hcr, hct⟩ := h.classEntry k x hx
      exact ⟨r, c', hr, hcr, Array.getElem?_push_of_eq_some hct⟩

/-! ## Visits, successful or not -/

/-- A visit of an instance already written returns its position and
changes nothing. -/
theorem visit_of_done {b : Nat} {i : InstanceId} {k : Nat} (h : t.visitOf i = some (.done k)) :
    visit a b i t = (.ok k, t) := by
  unfold visit
  rw [h]

/-- A visit of an unmarked instance, with budget left, whose references are
walked one level down: when the walk succeeds the instance is registered. -/
theorem visit_of_walk_ok {b : Nat} {i : InstanceId} {r : InstanceRecord} {t₁ : Tables} (hi : t.visitOf i = none)
    (hr : a.inst i = some r)
    (hwalk : r.references.foldl (walkReference (visit a b)) (.ok (), t.mark i .inProgress) = (.ok (), t₁)) :
    visit a (b + 1) i t = (.ok (t₁.register i r.cls).1, (t₁.register i r.cls).2) := by
  unfold visit
  rw [hi]
  dsimp only
  rw [hr]
  dsimp only
  rw [hwalk]

/-- A visit of an unmarked instance, with budget left, whose walk of
references fails, fails with the same error. -/
theorem visit_of_walk_error {b : Nat} {i : InstanceId} {r : InstanceRecord} {t₁ : Tables} {e : StreamError}
    (hi : t.visitOf i = none) (hr : a.inst i = some r)
    (hwalk : r.references.foldl (walkReference (visit a b)) (.ok (), t.mark i .inProgress) = (.error e, t₁)) :
    visit a (b + 1) i t = (.error e, t₁) := by
  unfold visit
  rw [hi]
  dsimp only
  rw [hr]
  dsimp only
  rw [hwalk]

/-- Marking an unmarked instance only adds a mark. -/
theorem Extends.mark_of_none {i : InstanceId} {v : Visit} (h : t.visitOf i = none) : t.Extends (t.mark i v) := by
  refine ⟨fun x w hx => ?_, fun e he => he⟩
  have hxi : x ≠ i := by
    rintro rfl
    rw [h] at hx
    cases hx
  rw [visitOf_mark, if_neg hxi]
  exact hx

/-- A function visits coherently when each visit, whatever its outcome,
keeps the tables coherent and only moves them forward, and a successful
visit writes its instance at the position it returns. -/
def VisitsCoherently (a : Arena) (visitTarget : InstanceId → Tables → Except StreamError Nat × Tables) : Prop :=
  ∀ y t, t.Coherent a → (visitTarget y t).2.Coherent a ∧ t.Extends (visitTarget y t).2 ∧
    ∀ k, (visitTarget y t).1 = .ok k → (visitTarget y t).2.instanceOrder[k]? = some y

/-- **Walking the references, whatever comes of it.** With a coherent
visit, a walk over `targets` keeps the tables coherent and only moves them
forward; if it succeeds, each target is written, with its token mapped to
its position. The induction is on the targets still to walk. -/
theorem foldl_walkReference_coherent {visitTarget : InstanceId → Tables → Except StreamError Nat × Tables}
    (hv : VisitsCoherently a visitTarget) :
    ∀ (targets : List InstanceId) (t : Tables), t.Coherent a →
      (targets.foldl (walkReference visitTarget) (.ok (), t)).2.Coherent a ∧
      t.Extends (targets.foldl (walkReference visitTarget) (.ok (), t)).2 ∧
      ((targets.foldl (walkReference visitTarget) (.ok (), t)).1 = .ok () → ∀ y ∈ targets,
        ∃ j, (targets.foldl (walkReference visitTarget) (.ok (), t)).2.instanceOrder[j]? = some y ∧
          (⟨y.token, j⟩ : Entry) ∈ (targets.foldl (walkReference visitTarget) (.ok (), t)).2.referenceResolution)
  | [], t, ht => ⟨ht, .refl t, by simp⟩
  | y :: ys, t, ht => by
    obtain ⟨ht₁, hext₁, hk⟩ := hv y t ht
    rw [List.foldl_cons]
    cases hvy : visitTarget y t with
    | mk result t₁ =>
      rw [hvy] at ht₁ hext₁ hk
      cases result with
      | error e =>
        -- the walk stops at the first failure, with the tables the failed visit left
        simp only [walkReference, hvy, foldl_walkReference_error, reduceCtorEq, false_imp_iff, and_true]
        exact ⟨ht₁, hext₁⟩
      | ok k =>
        simp only [walkReference, hvy]
        have hk' := hk k rfl
        have ht₂ := ht₁.pushReference hk'
        have hext₂ : t₁.Extends { t₁ with referenceResolution := t₁.referenceResolution.push ⟨y.token, k⟩ } :=
          ⟨fun _ _ hx => hx, fun _ he => Array.mem_push.2 (.inl he)⟩
        obtain ⟨ht', hext', hys⟩ := foldl_walkReference_coherent hv ys _ ht₂
        refine ⟨ht', hext₁.trans (hext₂.trans hext'), fun hok z hz => ?_⟩
        rcases List.mem_cons.1 hz with rfl | hz
        · -- the target just visited keeps its mark, hence its position
          have hdone := hext'.visits z _ ((ht₂.done_iff z k).2 hk')
          exact ⟨k, ((ht'.done_iff z k).1 hdone), hext'.references _ (Array.mem_push.2 (.inr rfl))⟩
        · exact hys hok z hz

/-- **A visit keeps the tables coherent**, whatever its outcome and at
every depth. The induction is on the depth left; one level down, the walk of
the references is coherent by `foldl_walkReference_coherent`. -/
theorem visit_coherent (b : Nat) : VisitsCoherently a (visit a b) := by
  induction b with
  | zero =>
    intro i t ht
    -- with no level left, a visit returns a mark or fails, and changes nothing
    unfold visit
    split
    · rename_i k hk
      exact ⟨ht, .refl t, fun k' hk' => by cases hk'; exact (ht.done_iff i k).1 hk⟩
    · exact ⟨ht, .refl t, by simp⟩
    · exact ⟨ht, .refl t, by simp⟩
  | succ b ih =>
    intro i t ht
    unfold visit
    split
    · rename_i k hk
      exact ⟨ht, .refl t, fun k' hk' => by cases hk'; exact (ht.done_iff i k).1 hk⟩
    · exact ⟨ht, .refl t, by simp⟩
    · rename_i hnone
      dsimp only
      split
      · exact ⟨ht, .refl t, by simp⟩
      · rename_i r hr
        have hext₀ : t.Extends (t.mark i .inProgress) := Extends.mark_of_none hnone
        obtain ⟨ht₁, hext₁, hrefs⟩ := foldl_walkReference_coherent ih r.references _ (ht.markInProgress hnone)
        split
        · -- a reference failed: the tables stay as the failed walk left them
          rename_i e t₁ hwalk
          rw [hwalk] at ht₁ hext₁
          exact ⟨ht₁, hext₀.trans hext₁, by simp⟩
        · rename_i t₁ hwalk
          rw [hwalk] at ht₁ hext₁ hrefs
          have hprog : t₁.visitOf i = some .inProgress :=
            hext₁.visits i _ (by rw [visitOf_mark, if_pos rfl])
          obtain ⟨t', hreg, ht', horder, hrefres, -, hvisits⟩ := ht₁.register hprog hr (hrefs rfl)
          rw [hreg]
          refine ⟨ht', ⟨fun x v hx => ?_, fun e he => ?_⟩, fun k hk => ?_⟩
          · -- the marks set before the visit stay: none of them is the visited instance's
            have hxi : x ≠ i := by
              rintro rfl
              rw [hnone] at hx
              cases hx
            rw [hvisits, if_neg hxi]
            exact hext₁.visits x v (hext₀.visits x v hx)
          · rw [hrefres]
            exact hext₁.references e (hext₀.references e he)
          · cases hk
            rw [horder]
            simp

/-! ## Any calls -/

/-- The tables that calls on arena `a` reach from the empty tables: walks
from an instance and direct additions of a class, each kept whatever it
returned. -/
inductive Reached (a : Arena) : Tables → Prop
  | empty : Reached a Tables.empty
  | walk {t : Tables} (i : InstanceId) : Reached a t → Reached a (t.appendInstance a i).2
  | addClass {t : Tables} (c : ClassId) : Reached a t → Reached a (t.appendClass c).2

/-- **The tables after any calls are coherent.** The induction is on the
calls. -/
theorem Reached.coherent (h : t.Reached a) : t.Coherent a := by
  induction h with
  | empty => exact .empty
  | walk i _ ih => exact (visit_coherent _ i _ ih).1
  | addClass c _ ih => exact ih.appendClass c

/-- **The resolution tables after any calls.** Whatever walks and direct
class additions ran on one set of tables, failed ones included: no class and
no instance is listed twice; the class-resolution table has one entry per
written instance, with its token and the class-table position of its class;
every reference entry points into the class-resolution table at an entry
with its token; every reference of a written instance names an instance
written before it. A successful walk returns the position its instance was
written at, and a walk from an instance already written returns that
position and leaves the tables as they were. -/
theorem Reached.resolution (h : t.Reached a) :
    t.classTable.toList.Nodup ∧ t.instanceOrder.toList.Nodup ∧
      t.classResolution.size = t.instanceOrder.size ∧
      (∀ (k : Nat) (x : InstanceId), t.instanceOrder[k]? = some x → ∃ r c, a.inst x = some r ∧
        t.classResolution[k]? = some (⟨x.token, c⟩ : Entry) ∧ t.classTable[c]? = some r.cls) ∧
      (∀ e ∈ t.referenceResolution, ∃ hk : e.index < t.classResolution.size,
        t.classResolution[e.index].token = e.token) ∧
      (∀ (k : Nat) (x : InstanceId) (r : InstanceRecord), t.instanceOrder[k]? = some x → a.inst x = some r →
        ∀ y ∈ r.references, ∃ j < k, t.instanceOrder[j]? = some y) ∧
      (∀ (x : InstanceId) (k : Nat) (t' : Tables), t.appendInstance a x = (.ok k, t') → t'.instanceOrder[k]? = some x) ∧
      (∀ (x : InstanceId) (k : Nat), t.instanceOrder[k]? = some x → t.appendInstance a x = (.ok k, t)) := by
  have ht := h.coherent
  refine ⟨ht.classes_nodup, ht.nodup, ht.size_classResolution, ht.classEntry, ?_, ?_, ?_, ?_⟩
  · -- a reference entry names a written instance, whose class entry carries its token
    intro e he
    obtain ⟨y, hy, htok⟩ := ht.refs_written e he
    obtain ⟨r, c, -, hcr, -⟩ := ht.classEntry _ _ hy
    obtain ⟨hlt, hget⟩ := Array.getElem?_eq_some_iff.1 hcr
    exact ⟨hlt, by rw [hget, htok]⟩
  · intro k x r hx hr y hy
    obtain ⟨j, hjk, hj, -⟩ := ht.refs_before k x r hx hr y hy
    exact ⟨j, hjk, hj⟩
  · -- a walk is a visit with the whole depth to go
    intro x k t' hx
    have hvisit : visit a (maxReferenceDepth + 1) x t = (.ok k, t') := hx
    have hok := (@visit_coherent a (maxReferenceDepth + 1) x t ht).2.2 k
    rw [hvisit] at hok
    exact hok rfl
  · intro x k hx
    exact visit_of_done ((ht.done_iff x k).2 hx)

/-- A walk from an instance the empty arena lacks fails, and a class is then
added directly: the tables still resolve. -/
theorem reached_after_unknown_instance_resolution :
    let t := ((Tables.empty.appendInstance Arena.empty ⟨7⟩).2.appendClass ⟨3⟩).2
    t.Reached Arena.empty ∧
      t.classTable.toList.Nodup ∧ t.instanceOrder.toList.Nodup ∧
      t.classResolution.size = t.instanceOrder.size ∧
      (∀ (k : Nat) (x : InstanceId), t.instanceOrder[k]? = some x → ∃ r c, Arena.empty.inst x = some r ∧
        t.classResolution[k]? = some (⟨x.token, c⟩ : Entry) ∧ t.classTable[c]? = some r.cls) ∧
      (∀ e ∈ t.referenceResolution, ∃ hk : e.index < t.classResolution.size,
        t.classResolution[e.index].token = e.token) ∧
      (∀ (k : Nat) (x : InstanceId) (r : InstanceRecord), t.instanceOrder[k]? = some x →
        Arena.empty.inst x = some r → ∀ y ∈ r.references, ∃ j < k, t.instanceOrder[j]? = some y) ∧
      (∀ (x : InstanceId) (k : Nat) (t' : Tables), t.appendInstance Arena.empty x = (.ok k, t') →
        t'.instanceOrder[k]? = some x) ∧
      (∀ (x : InstanceId) (k : Nat), t.instanceOrder[k]? = some x → t.appendInstance Arena.empty x = (.ok k, t)) :=
  have h : ((Tables.empty.appendInstance Arena.empty ⟨7⟩).2.appendClass ⟨3⟩).2.Reached Arena.empty :=
    .addClass ⟨3⟩ (.walk ⟨7⟩ .empty)
  ⟨h, Reached.resolution h⟩

end Tables

end CimBroker.Stream

import Mathlib.Data.List.Nodup
import CimBroker.Stream.Encode
import CimBroker.Proofs.Stream.Words

/-!
# The walk of a write

Writing a stream walks the reference graph depth first from the top-level
instances (`Tables.ofTops`). This module says what a successful walk leaves
in its tables:

* the instances written are exactly those reachable from the top-level ones,
  each once, however many paths reach it or how often it is listed;
* the class table lists the class of each written instance, each class once;
* at each position the class-resolution table holds the token of the
  instance written there and the class-table position of its class;
* every reference of a written instance names an instance written before
  it, and the reference-resolution table maps its token to that position;
  every entry of that table maps the token of a written instance to its
  position.

A visit keeps an invariant of the tables (`Tables.Inv`), relative to the
arena and to a set of instances closed under references; a run of visits
from the empty tables keeps it for the set reachable from the top-level
instances. Most of it holds of the tables of any walk, failed ones
included (`Tables.Coherent`); each step of a visit is proved for that part
once, and `Inv` adds where the written instances lie and that every class
listed is used.

## Main results

* `visit_ok` — a successful visit keeps the invariant and writes its
  instance.
* `Tables.ofTops_induction` — a successful walk is a run of successful
  top-level visits.
* `ofTops_inv` — the tables of a successful walk satisfy the invariant and
  hold every top-level instance.
* `mem_ofTops_iff` — the instances written are exactly the reachable ones.
-/

namespace CimBroker.Stream

/-- The instances reachable from `tops`: those of `tops`, and every
instance that a reachable instance references. -/
inductive Arena.ReachableFrom (a : Arena) (tops : List InstanceId) : InstanceId → Prop
  | top {i : InstanceId} : i ∈ tops → a.ReachableFrom tops i
  | ref {i j : InstanceId} {r : InstanceRecord} : a.ReachableFrom tops i → a.inst i = some r →
      j ∈ r.references → a.ReachableFrom tops j

theorem InstanceId.eq_of_token_eq {x y : InstanceId} (h : x.token = y.token) : x = y := by
  cases x
  cases y
  simp only [InstanceId.token, Nat.add_right_cancel_iff] at h
  rw [h]

theorem Array.getElem?_inj_of_nodup {α : Type} {xs : Array α} (h : xs.toList.Nodup) {i j : Nat} {y : α}
    (hi : xs[i]? = some y) (hj : xs[j]? = some y) : i = j := by
  have hne := List.nodup_iff_getElem?_ne_getElem?.1 h
  have hi' : xs.toList[i]? = some y := by simpa using hi
  have hj' : xs.toList[j]? = some y := by simpa using hj
  have hilt : i < xs.toList.length := (List.getElem?_eq_some_iff.1 hi').1
  have hjlt : j < xs.toList.length := (List.getElem?_eq_some_iff.1 hj').1
  rcases Nat.lt_trichotomy i j with hij | hij | hij
  · exact absurd (hi'.trans hj'.symm) (hne i j hij hjlt)
  · exact hij
  · exact absurd (hj'.trans hi'.symm) (hne j i hij hilt)

theorem Array.getElem?_push_of_eq_some {α : Type} {xs : Array α} {j : Nat} {y x : α} (h : xs[j]? = some y) :
    (xs.push x)[j]? = some y := by
  rw [Array.getElem?_push, if_neg]
  · exact h
  · rintro rfl
    simp at h

namespace Tables

/-! ## The marks of a walk -/

/-- Cells past the end of the marks read as unmarked, also after the marks
were padded with empty cells. -/
private theorem join_getElem?_append_replicate (xs : Array (Option Visit)) (n j : Nat) :
    ((xs ++ Array.replicate n none)[j]?).join = (xs[j]?).join := by
  by_cases hj : j < xs.size
  · rw [Array.getElem?_append_left hj]
  · rw [Array.getElem?_append_right (by omega), Array.getElem?_replicate, Array.getElem?_eq_none (by omega)]
    split <;> rfl

theorem visitOf_mark (t : Tables) (i x : InstanceId) (v : Visit) :
    (t.mark i v).visitOf x = if x = i then some v else t.visitOf x := by
  unfold mark visitOf
  simp only [Array.set!_eq_setIfInBounds, Array.getElem?_setIfInBounds]
  have hsize : i.index < (if i.index < t.visits.size then t.visits
      else t.visits ++ Array.replicate (i.index + 1 - t.visits.size) none).size := by
    split
    · assumption
    · simp only [Array.size_append, Array.size_replicate]
      omega
  by_cases hx : x = i
  · subst hx
    simp [hsize]
  · have hindex : i.index ≠ x.index := fun h => hx (by cases x; cases i; simp_all)
    simp only [hindex, if_false, hx]
    split
    · rfl
    · exact join_getElem?_append_replicate _ _ _

@[simp] theorem mark_instanceOrder (t : Tables) (i : InstanceId) (v : Visit) :
    (t.mark i v).instanceOrder = t.instanceOrder := rfl

@[simp] theorem mark_classTable (t : Tables) (i : InstanceId) (v : Visit) :
    (t.mark i v).classTable = t.classTable := rfl

@[simp] theorem mark_classResolution (t : Tables) (i : InstanceId) (v : Visit) :
    (t.mark i v).classResolution = t.classResolution := rfl

@[simp] theorem mark_referenceResolution (t : Tables) (i : InstanceId) (v : Visit) :
    (t.mark i v).referenceResolution = t.referenceResolution := rfl

/-! ## The class table -/

/-- A class already in the class table keeps its position; a new one is
appended. -/
theorem appendClass_eq (t : Tables) (c : ClassId) :
    (∃ k, t.classTable[k]? = some c ∧ t.appendClass c = (k, t)) ∨
      (c ∉ t.classTable ∧ t.appendClass c = (t.classTable.size, { t with classTable := t.classTable.push c })) := by
  unfold appendClass
  split
  · rename_i k hk
    obtain ⟨hlt, hget, -⟩ := Array.findIdx?_eq_some_iff_getElem.1 hk
    exact .inl ⟨k, Array.getElem?_eq_some_iff.2 ⟨hlt, by simpa using hget⟩, rfl⟩
  · rename_i hk
    refine .inr ⟨fun hmem => ?_, rfl⟩
    simpa using Array.findIdx?_eq_none_iff.1 hk c hmem

/-! ## The invariant -/

variable {a : Arena} {R : InstanceId → Prop} {t : Tables}

/-- Marks only ever go forward, and reference entries are never dropped. -/
structure Extends (t t' : Tables) : Prop where
  visits : ∀ x v, t.visitOf x = some v → t'.visitOf x = some v
  references : ∀ e ∈ t.referenceResolution, e ∈ t'.referenceResolution

theorem Extends.refl (t : Tables) : t.Extends t := ⟨fun _ _ h => h, fun _ h => h⟩

theorem Extends.trans {t₁ t₂ t₃ : Tables} (h₁ : t₁.Extends t₂) (h₂ : t₂.Extends t₃) : t₁.Extends t₃ :=
  ⟨fun x v h => h₂.visits x v (h₁.visits x v h), fun e h => h₂.references e (h₁.references e h)⟩

/-- What the tables of every walk in arena `a` satisfy, walks that failed
included: each written instance once, marked done at its position, with its
class entry; each reference of a written instance written before it. -/
structure Coherent (a : Arena) (t : Tables) : Prop where
  /-- No instance is written twice. -/
  nodup : t.instanceOrder.toList.Nodup
  /-- An instance is marked done exactly at the position it was written at. -/
  done_iff : ∀ (x : InstanceId) (k : Nat), t.visitOf x = some (.done k) ↔ t.instanceOrder[k]? = some x
  classes_nodup : t.classTable.toList.Nodup
  size_classResolution : t.classResolution.size = t.instanceOrder.size
  /-- The class-resolution entry of each written instance: its token and
  the class-table position of its class. -/
  classEntry : ∀ (k : Nat) (x : InstanceId), t.instanceOrder[k]? = some x →
    ∃ r c, a.inst x = some r ∧ t.classResolution[k]? = some (⟨x.token, c⟩ : Entry) ∧
      t.classTable[c]? = some r.cls
  /-- Each reference of a written instance names an instance written
  before it, and its token is mapped to that position. -/
  refs_before : ∀ (k : Nat) (x : InstanceId) (r : InstanceRecord), t.instanceOrder[k]? = some x → a.inst x = some r → ∀ y ∈ r.references,
    ∃ j < k, t.instanceOrder[j]? = some y ∧ (⟨y.token, j⟩ : Entry) ∈ t.referenceResolution
  /-- Each reference entry maps the token of a written instance to its
  position. -/
  refs_written : ∀ e ∈ t.referenceResolution, ∃ y, t.instanceOrder[e.index]? = some y ∧ e.token = y.token

/-- The tables of a walk in arena `a` whose written instances all lie in
`R`. -/
structure Inv (a : Arena) (R : InstanceId → Prop) (t : Tables) : Prop where
  /-- No instance is written twice. -/
  nodup : t.instanceOrder.toList.Nodup
  mem_R : ∀ x ∈ t.instanceOrder, R x
  /-- An instance is marked done exactly at the position it was written at. -/
  done_iff : ∀ (x : InstanceId) (k : Nat), t.visitOf x = some (.done k) ↔ t.instanceOrder[k]? = some x
  classes_nodup : t.classTable.toList.Nodup
  /-- Every class listed is the class of a written instance. -/
  classes_used : ∀ c ∈ t.classTable, ∃ x r, x ∈ t.instanceOrder ∧ a.inst x = some r ∧ r.cls = c
  size_classResolution : t.classResolution.size = t.instanceOrder.size
  /-- The class-resolution entry of each written instance: its token and
  the class-table position of its class. -/
  classEntry : ∀ (k : Nat) (x : InstanceId), t.instanceOrder[k]? = some x →
    ∃ r c, a.inst x = some r ∧ t.classResolution[k]? = some (⟨x.token, c⟩ : Entry) ∧
      t.classTable[c]? = some r.cls
  /-- Each reference of a written instance names an instance written
  before it, and its token is mapped to that position. -/
  refs_before : ∀ (k : Nat) (x : InstanceId) (r : InstanceRecord), t.instanceOrder[k]? = some x → a.inst x = some r → ∀ y ∈ r.references,
    ∃ j < k, t.instanceOrder[j]? = some y ∧ (⟨y.token, j⟩ : Entry) ∈ t.referenceResolution
  /-- Each reference entry maps the token of a written instance to its
  position. -/
  refs_written : ∀ e ∈ t.referenceResolution, ∃ y, t.instanceOrder[e.index]? = some y ∧ e.token = y.token

theorem Inv.coherent (h : t.Inv a R) : t.Coherent a :=
  ⟨h.nodup, h.done_iff, h.classes_nodup, h.size_classResolution, h.classEntry, h.refs_before, h.refs_written⟩

/-- Coherent tables whose written instances lie in `R` and whose classes
are all used satisfy the invariant. -/
theorem Coherent.inv (h : t.Coherent a) (hR : ∀ x ∈ t.instanceOrder, R x)
    (hused : ∀ c ∈ t.classTable, ∃ x r, x ∈ t.instanceOrder ∧ a.inst x = some r ∧ r.cls = c) : t.Inv a R :=
  ⟨h.nodup, hR, h.done_iff, h.classes_nodup, hused, h.size_classResolution, h.classEntry, h.refs_before,
    h.refs_written⟩

theorem Coherent.empty : Tables.empty.Coherent a where
  nodup := List.nodup_nil
  done_iff := by simp [Tables.empty, visitOf]
  classes_nodup := List.nodup_nil
  size_classResolution := rfl
  classEntry := by simp [Tables.empty]
  refs_before := by simp [Tables.empty]
  refs_written := by simp [Tables.empty]

theorem Inv.empty : Tables.empty.Inv a R :=
  Coherent.empty.inv (by simp [Tables.empty]) (by simp [Tables.empty])

theorem Coherent.mem_iff (h : t.Coherent a) {x : InstanceId} :
    x ∈ t.instanceOrder ↔ ∃ k, t.visitOf x = some (.done k) := by
  simp only [h.done_iff, Array.mem_iff_getElem?]

theorem Inv.mem_iff (h : t.Inv a R) {x : InstanceId} : x ∈ t.instanceOrder ↔ ∃ k, t.visitOf x = some (.done k) :=
  h.coherent.mem_iff

/-- The instance being visited is marked in progress; no other mark changes. -/
theorem Coherent.markInProgress (h : t.Coherent a) {i : InstanceId} (hi : t.visitOf i = none) :
    (t.mark i .inProgress).Coherent a where
  nodup := h.nodup
  done_iff x k := by
    rw [visitOf_mark, mark_instanceOrder]
    by_cases hx : x = i
    · subst hx
      simp only [if_true, Option.some.injEq, reduceCtorEq, false_iff]
      intro hk
      rw [(h.done_iff x k).2 hk] at hi
      cases hi
    · simp only [hx, if_false]
      exact h.done_iff x k
  classes_nodup := h.classes_nodup
  size_classResolution := h.size_classResolution
  classEntry := h.classEntry
  refs_before := h.refs_before
  refs_written := h.refs_written

theorem Inv.markInProgress (h : t.Inv a R) {i : InstanceId} (hi : t.visitOf i = none) :
    (t.mark i .inProgress).Inv a R :=
  (h.coherent.markInProgress hi).inv h.mem_R h.classes_used

/-- A reference entry that maps a written instance's token to its position
keeps the tables coherent. -/
theorem Coherent.pushReference (h : t.Coherent a) {y : InstanceId} {k : Nat} (hk : t.instanceOrder[k]? = some y) :
    ({ t with referenceResolution := t.referenceResolution.push ⟨y.token, k⟩ } : Tables).Coherent a where
  nodup := h.nodup
  done_iff := h.done_iff
  classes_nodup := h.classes_nodup
  size_classResolution := h.size_classResolution
  classEntry := h.classEntry
  refs_before k x r hx hr z hz := by
    obtain ⟨j, hj, hjz, hmem⟩ := h.refs_before k x r hx hr z hz
    exact ⟨j, hj, hjz, Array.mem_push.2 (.inl hmem)⟩
  refs_written e he := by
    rcases Array.mem_push.1 he with he | rfl
    · exact h.refs_written e he
    · exact ⟨y, hk, rfl⟩

theorem Inv.pushReference (h : t.Inv a R) {y : InstanceId} {k : Nat} (hk : t.instanceOrder[k]? = some y) :
    ({ t with referenceResolution := t.referenceResolution.push ⟨y.token, k⟩ } : Tables).Inv a R :=
  (h.coherent.pushReference hk).inv h.mem_R h.classes_used

/-- Writing instance `i`, whose references are all written, at the next
position, with its class at position `c` of the class table `ct`, keeps the
tables coherent; `ct` keeps the positions of the class table. -/
private theorem Coherent.registerWith (h : t.Coherent a) {i : InstanceId} {r : InstanceRecord}
    (hi : t.visitOf i = some .inProgress) (hr : a.inst i = some r)
    (hrefs : ∀ y ∈ r.references,
      ∃ j, t.instanceOrder[j]? = some y ∧ (⟨y.token, j⟩ : Entry) ∈ t.referenceResolution)
    {ct : Array ClassId} {c : Nat} (hc : ct[c]? = some r.cls)
    (hext : ∀ (k : Nat) (d : ClassId), t.classTable[k]? = some d → ct[k]? = some d) (hnodup : ct.toList.Nodup) :
    (({ t with classTable := ct,
                classResolution := t.classResolution.push ⟨i.token, c⟩,
                instanceOrder := t.instanceOrder.push i } : Tables).mark i
      (.done t.instanceOrder.size)).Coherent a := by
  -- `i` is in progress, so it is not written yet
  have hnotin : i ∉ t.instanceOrder := by
    intro hmem
    obtain ⟨k, hk⟩ := h.mem_iff.1 hmem
    rw [hi] at hk
    cases hk
  refine ⟨?_, ?_, hnodup, ?_, ?_, ?_, ?_⟩
  · -- nodup
    simp only [mark_instanceOrder, Array.toList_push, List.nodup_append, List.nodup_singleton,
      List.mem_singleton]
    refine ⟨h.nodup, trivial, ?_⟩
    rintro x hx _ rfl rfl
    exact hnotin (Array.mem_toList_iff.1 hx)
  · -- done_iff: `i` is marked done at the new position, every other mark is as before
    intro x k
    rw [visitOf_mark, mark_instanceOrder, Array.getElem?_push]
    show (if x = i then some (Visit.done t.instanceOrder.size) else t.visitOf x) = some (.done k) ↔
      (if k = t.instanceOrder.size then some i else t.instanceOrder[k]?) = some x
    have hOi : ∀ k, t.instanceOrder[k]? ≠ some i := fun k hk => hnotin (Array.mem_iff_getElem?.2 ⟨k, hk⟩)
    by_cases hx : x = i
    · subst hx
      by_cases hk : k = t.instanceOrder.size
      · simp [hk]
      · simp [hk, hOi, Ne.symm hk]
    · by_cases hk : k = t.instanceOrder.size
      · simp [hx, hk, h.done_iff, Ne.symm hx]
      · simp [hx, hk, h.done_iff]
  · -- size_classResolution
    simp [h.size_classResolution]
  · -- classEntry
    intro k x hx
    rw [mark_instanceOrder, Array.getElem?_push] at hx
    split at hx
    · rename_i hk
      cases hx
      subst hk
      refine ⟨r, c, hr, ?_, hc⟩
      rw [mark_classResolution, Array.getElem?_push, if_pos h.size_classResolution.symm]
    · obtain ⟨r', c', hr', hcr, hct⟩ := h.classEntry k x hx
      exact ⟨r', c', hr', Array.getElem?_push_of_eq_some hcr, hext c' _ hct⟩
  · -- refs_before
    intro k x r' hx hr' y hy
    rw [mark_instanceOrder, Array.getElem?_push] at hx
    split at hx
    · rename_i hk
      cases hx
      subst hk
      rw [hr] at hr'
      cases hr'
      obtain ⟨j, hj, hjref⟩ := hrefs y hy
      have hjlt : j < t.instanceOrder.size := (Array.getElem?_eq_some_iff.1 hj).1
      exact ⟨j, hjlt, Array.getElem?_push_of_eq_some hj, hjref⟩
    · obtain ⟨j, hjk, hj, hjref⟩ := h.refs_before k x r' hx hr' y hy
      exact ⟨j, hjk, Array.getElem?_push_of_eq_some hj, hjref⟩
  · -- refs_written
    intro e he
    obtain ⟨y, hy, htok⟩ := h.refs_written e he
    exact ⟨y, Array.getElem?_push_of_eq_some hy, htok⟩

/-- Registering an instance in progress whose references are all written
keeps the tables coherent: the instance is written at the next position and
marked done there, the class table gains at most its class, and nothing else
changes of the marks and the reference entries. -/
theorem Coherent.register (h : t.Coherent a) {i : InstanceId} {r : InstanceRecord}
    (hi : t.visitOf i = some .inProgress) (hr : a.inst i = some r)
    (hrefs : ∀ y ∈ r.references,
      ∃ j, t.instanceOrder[j]? = some y ∧ (⟨y.token, j⟩ : Entry) ∈ t.referenceResolution) :
    ∃ t', t.register i r.cls = (t.instanceOrder.size, t') ∧ t'.Coherent a ∧
      t'.instanceOrder = t.instanceOrder.push i ∧ t'.referenceResolution = t.referenceResolution ∧
      (∀ d ∈ t'.classTable, d ∈ t.classTable ∨ d = r.cls) ∧
      ∀ x, t'.visitOf x = if x = i then some (.done t.instanceOrder.size) else t.visitOf x := by
  rcases appendClass_eq t r.cls with ⟨c, hc, happ⟩ | ⟨hnot, happ⟩
  · have hreg : t.register i r.cls = (t.instanceOrder.size,
        ({ t with classResolution := t.classResolution.push ⟨i.token, c⟩,
                  instanceOrder := t.instanceOrder.push i } : Tables).mark i (.done t.instanceOrder.size)) := by
      simp only [Tables.register, happ, Array.size_push, Nat.add_sub_cancel, h.size_classResolution]
    exact ⟨_, hreg, h.registerWith hi hr hrefs hc (fun _ _ hk => hk) h.classes_nodup,
      rfl, rfl, fun d hd => .inl hd, fun x => visitOf_mark _ i x _⟩
  · have hreg : t.register i r.cls = (t.instanceOrder.size,
        ({ t with classTable := t.classTable.push r.cls,
                  classResolution := t.classResolution.push ⟨i.token, t.classTable.size⟩,
                  instanceOrder := t.instanceOrder.push i } : Tables).mark i (.done t.instanceOrder.size)) := by
      simp only [Tables.register, happ, Array.size_push, Nat.add_sub_cancel, h.size_classResolution]
    have hc : (t.classTable.push r.cls)[t.classTable.size]? = some r.cls := by simp
    have hnodup : (t.classTable.push r.cls).toList.Nodup := by
      simp only [Array.toList_push, List.nodup_append, List.nodup_singleton, List.mem_singleton]
      refine ⟨h.classes_nodup, trivial, ?_⟩
      rintro d hd _ rfl rfl
      exact hnot (Array.mem_toList_iff.1 hd)
    exact ⟨_, hreg, h.registerWith hi hr hrefs hc (fun _ _ hk => Array.getElem?_push_of_eq_some hk) hnodup,
      rfl, rfl, fun d hd => Array.mem_push.1 hd, fun x => visitOf_mark _ i x _⟩

/-- Registering an instance of `R` in progress whose references are all
written keeps the invariant: the instance is written at the next position
and marked done there, and nothing else changes of the marks and the
reference entries. -/
theorem Inv.register (h : t.Inv a R) {i : InstanceId} {r : InstanceRecord}
    (hi : t.visitOf i = some .inProgress) (hr : a.inst i = some r) (hR : R i)
    (hrefs : ∀ y ∈ r.references,
      ∃ j, t.instanceOrder[j]? = some y ∧ (⟨y.token, j⟩ : Entry) ∈ t.referenceResolution) :
    ∃ t', t.register i r.cls = (t.instanceOrder.size, t') ∧ t'.Inv a R ∧
      t'.instanceOrder = t.instanceOrder.push i ∧ t'.referenceResolution = t.referenceResolution ∧
      ∀ x, t'.visitOf x = if x = i then some (.done t.instanceOrder.size) else t.visitOf x := by
  obtain ⟨t', hreg, hcoh, horder, hrefres, hclasses, hvisits⟩ := h.coherent.register hi hr hrefs
  refine ⟨t', hreg, hcoh.inv ?_ ?_, horder, hrefres, hvisits⟩
  · intro x hx
    rw [horder] at hx
    rcases Array.mem_push.1 hx with hx | rfl
    · exact h.mem_R x hx
    · exact hR
  · -- a class listed before is used by an instance still written; the new one by `i`
    intro d hd
    rw [horder]
    rcases hclasses d hd with hd | rfl
    · obtain ⟨x, r', hx, hr', hcls⟩ := h.classes_used d hd
      exact ⟨x, r', Array.mem_push.2 (.inl hx), hr', hcls⟩
    · exact ⟨i, r, Array.mem_push.2 (.inr rfl), hr, rfl⟩

/-! ## Walking the references of an instance -/

/-- A function visits soundly when each successful visit of an instance of
`R` keeps the invariant, only moves marks forward, and writes the instance
at the position it returns. -/
def VisitsSoundly (a : Arena) (R : InstanceId → Prop)
    (visitTarget : InstanceId → Tables → Except StreamError Nat × Tables) : Prop :=
  ∀ y t t' k, R y → t.Inv a R → visitTarget y t = (.ok k, t') →
    t'.Inv a R ∧ t.Extends t' ∧ t'.instanceOrder[k]? = some y

theorem foldl_walkReference_error (visitTarget : InstanceId → Tables → Except StreamError Nat × Tables)
    (targets : List InstanceId) (e : StreamError) (t : Tables) :
    targets.foldl (walkReference visitTarget) (.error e, t) = (.error e, t) := by
  induction targets with
  | nil => rfl
  | cons y ys ih => exact ih

/-- **Walking the references.** With a sound visit, a walk over `targets`
that succeeds keeps the invariant and leaves each target written, with its
token mapped to its position. The induction is on the targets still to
walk. -/
theorem foldl_walkReference_ok {visitTarget : InstanceId → Tables → Except StreamError Nat × Tables}
    (hv : VisitsSoundly a R visitTarget) :
    ∀ (targets : List InstanceId) (t t' : Tables), (∀ y ∈ targets, R y) → t.Inv a R →
      targets.foldl (walkReference visitTarget) (.ok (), t) = (.ok (), t') →
      t'.Inv a R ∧ t.Extends t' ∧ ∀ y ∈ targets,
        ∃ j, t'.instanceOrder[j]? = some y ∧ (⟨y.token, j⟩ : Entry) ∈ t'.referenceResolution
  | [], t, t', _, hinv, h => by
    simp only [List.foldl_nil, Prod.mk.injEq, true_and] at h
    subst h
    exact ⟨hinv, .refl t, by simp⟩
  | y :: ys, t, t', hR, hinv, h => by
    rw [List.foldl_cons] at h
    cases hvy : visitTarget y t with
    | mk result t₁ =>
      cases result with
      | error e =>
        simp only [walkReference, hvy, foldl_walkReference_error, Prod.mk.injEq, reduceCtorEq, false_and] at h
      | ok k =>
        simp only [walkReference, hvy] at h
        obtain ⟨hinv₁, hext₁, hk⟩ := hv y t t₁ k (hR y List.mem_cons_self) hinv hvy
        have hinv₂ := hinv₁.pushReference hk
        have hext₂ : t₁.Extends { t₁ with referenceResolution := t₁.referenceResolution.push ⟨y.token, k⟩ } :=
          ⟨fun _ _ hx => hx, fun _ he => Array.mem_push.2 (.inl he)⟩
        obtain ⟨hinv', hext', hys⟩ :=
          foldl_walkReference_ok hv ys _ t' (fun z hz => hR z (List.mem_cons_of_mem y hz)) hinv₂ h
        refine ⟨hinv', hext₁.trans (hext₂.trans hext'), ?_⟩
        intro z hz
        rcases List.mem_cons.1 hz with rfl | hz
        · -- the target just visited keeps its mark, hence its position
          have hdone := hext'.visits z _ ((hinv₂.done_iff z k).2 hk)
          exact ⟨k, (hinv'.done_iff z k).1 hdone, hext'.references _ (Array.mem_push.2 (.inr rfl))⟩
        · exact hys z hz

/-! ## Visits -/

/-- **What a successful visit did.** Either the instance was already
written, and nothing changed, or it was unmarked, it exists, the walk of its
references succeeded one level down, and it was registered. -/
theorem visit_eq_ok {b : Nat} {i : InstanceId} {t t' : Tables} {k : Nat}
    (h : visit a b i t = (.ok k, t')) :
    (t.visitOf i = some (.done k) ∧ t' = t) ∨
      ∃ b' r t₁, b = b' + 1 ∧ t.visitOf i = none ∧ a.inst i = some r ∧
        r.references.foldl (walkReference (visit a b')) (.ok (), t.mark i .inProgress) = (.ok (), t₁) ∧
        t₁.register i r.cls = (k, t') := by
  unfold visit at h
  split at h
  · rename_i k₀ hdone
    simp only [Prod.mk.injEq, Except.ok.injEq] at h
    obtain ⟨rfl, rfl⟩ := h
    exact .inl ⟨hdone, rfl⟩
  · simp at h
  · rename_i hnone
    split at h
    · simp at h
    · rename_i b'
      split at h
      · simp at h
      · rename_i r hr
        split at h
        · simp at h
        · rename_i t₁ hwalk
          refine .inr ⟨b', r, t₁, rfl, hnone, hr, hwalk, ?_⟩
          revert h
          cases t₁.register i r.cls
          simp only [Prod.mk.injEq, Except.ok.injEq]
          rintro ⟨rfl, rfl⟩
          exact ⟨rfl, rfl⟩

/-- **A successful visit is sound**, at every depth, for a set `R` closed
under references. The induction is on the depth left; one level down, the
walk of the references is sound by `foldl_walkReference_ok`. -/
theorem visit_ok (hclosed : ∀ x r y, R x → a.inst x = some r → y ∈ r.references → R y) (b : Nat) :
    VisitsSoundly a R (visit a b) := by
  induction b with
  | zero =>
    intro i t t' k _ hinv h
    rcases visit_eq_ok h with ⟨hdone, ht⟩ | ⟨b', -, -, hb, -⟩
    · rw [ht]
      exact ⟨hinv, .refl t, (hinv.done_iff i k).1 hdone⟩
    · exact absurd hb (Nat.zero_ne_add_one b')
  | succ b ih =>
    intro i t t' k hR hinv h
    rcases visit_eq_ok h with ⟨hdone, ht⟩ | ⟨b', r, t₁, hb, hnone, hr, hwalk, hreg⟩
    · rw [ht]
      exact ⟨hinv, .refl t, (hinv.done_iff i k).1 hdone⟩
    · obtain rfl : b = b' := Nat.succ.inj hb
      obtain ⟨hinv₁, hext₁, hrefs⟩ := foldl_walkReference_ok ih r.references _ t₁
        (fun y hy => hclosed i r y hR hr hy) (hinv.markInProgress hnone) hwalk
      have hprog : t₁.visitOf i = some .inProgress :=
        hext₁.visits i _ (by rw [visitOf_mark, if_pos rfl])
      obtain ⟨t'', hreg', hinv', horder, hrefres, hvisits⟩ := hinv₁.register hprog hr hR hrefs
      rw [hreg'] at hreg
      obtain ⟨rfl, rfl⟩ := Prod.mk.inj hreg
      refine ⟨hinv', ⟨?_, ?_⟩, ?_⟩
      · -- the marks set before the visit stay: none of them is the visited instance's
        intro x v hx
        have hxi : x ≠ i := by
          rintro rfl
          rw [hnone] at hx
          cases hx
        rw [hvisits, if_neg hxi]
        exact hext₁.visits x v (by rw [visitOf_mark, if_neg hxi]; exact hx)
      · intro e he
        rw [hrefres]
        exact hext₁.references e he
      · rw [horder]
        simp

end Tables

/-! ## A whole walk -/

variable {a : Arena} {tops : List InstanceId} {t : Tables}

theorem Arena.ReachableFrom.closed {x y : InstanceId} {r : InstanceRecord} (hx : a.ReachableFrom tops x)
    (hr : a.inst x = some r) (hy : y ∈ r.references) : a.ReachableFrom tops y :=
  .ref hx hr hy

/-- One top-level visit of a walk, as `Tables.ofTops` makes it: the tables
the visit leaves, or its failure, which ends the walk. -/
def Tables.visitTop (a : Arena) (t : Tables) (i : InstanceId) : Except StreamError Tables :=
  match t.appendInstance a i with
  | (.ok _, t) => .ok t
  | (.error e, _) => .error e

theorem Tables.ofTops_eq_foldlM (a : Arena) (tops : List InstanceId) :
    Tables.ofTops a tops = tops.foldlM (Tables.visitTop a) Tables.empty := rfl

theorem Tables.visitTop_eq_ok {t₀ t₁ : Tables} {x : InstanceId} :
    Tables.visitTop a t₀ x = .ok t₁ ↔ ∃ k, t₀.appendInstance a x = (.ok k, t₁) := by
  unfold Tables.visitTop
  split
  · rename_i k t' happ
    simp [happ]
  · rename_i e t' happ
    simp [happ]

/-- **A successful walk is a run of successful top-level visits.** A
property of the top-level instances visited so far and of the tables, true
of none and the empty tables and kept by each successful visit of the next
top-level instance, holds of all of them and the tables of the walk. -/
theorem Tables.ofTops_induction (P : List InstanceId → Tables → Prop) (h₀ : P [] Tables.empty)
    (hstep : ∀ pre x post t₀ k t₁, tops = pre ++ x :: post → P pre t₀ →
      t₀.appendInstance a x = (.ok k, t₁) → P (pre ++ [x]) t₁)
    (h : Tables.ofTops a tops = .ok t) : P tops t := by
  -- the walk from `t₀` over the instances `xs` left after `pre`; the induction is on `xs`
  have key : ∀ (xs pre : List InstanceId) (t₀ : Tables), pre ++ xs = tops → P pre t₀ →
      xs.foldlM (Tables.visitTop a) t₀ = .ok t → P tops t := by
    intro xs
    induction xs with
    | nil =>
      intro pre t₀ hpre hP h
      have ht : t₀ = t := Except.ok_inj h
      rw [← ht, ← hpre, List.append_nil]
      exact hP
    | cons x xs ih =>
      intro pre t₀ hpre hP h
      rw [List.foldlM_cons] at h
      obtain ⟨t₁, h₁, h⟩ := Except.bind_eq_ok.1 h
      obtain ⟨k, happ⟩ := Tables.visitTop_eq_ok.1 h₁
      exact ih (pre ++ [x]) t₁ (by rw [← hpre]; simp) (hstep pre x xs t₀ k t₁ hpre.symm hP happ) h
  rw [Tables.ofTops_eq_foldlM] at h
  exact key tops [] Tables.empty rfl h₀ h

/-- **The tables of a successful walk.** They satisfy the invariant for the
instances reachable from `tops`, and every top-level instance is written. -/
theorem ofTops_inv (h : Tables.ofTops a tops = .ok t) :
    t.Inv a (a.ReachableFrom tops) ∧ ∀ x ∈ tops, x ∈ t.instanceOrder := by
  -- each visit keeps the invariant and writes its instance, and what is written stays written
  refine Tables.ofTops_induction
    (fun pre t₀ => t₀.Inv a (a.ReachableFrom tops) ∧ ∀ x ∈ pre, x ∈ t₀.instanceOrder)
    ⟨Tables.Inv.empty, by simp⟩ (fun pre x post t₀ k t₁ hsplit hP happ => ?_) h
  obtain ⟨hinv, hmem⟩ := hP
  obtain ⟨hinv₁, hext₁, hk⟩ := Tables.visit_ok (fun _ _ _ hx hr hy => hx.closed hr hy) _ x t₀ t₁ k
    (.top (by simp [hsplit])) hinv happ
  refine ⟨hinv₁, fun y hy => ?_⟩
  rcases List.mem_append.1 hy with hy | hy
  · obtain ⟨k', hdone⟩ := hinv.mem_iff.1 (hmem y hy)
    exact hinv₁.mem_iff.2 ⟨k', hext₁.visits y _ hdone⟩
  · rw [List.mem_singleton.1 hy]
    exact Array.mem_of_getElem? hk

/-- **The instances written are the reachable ones.** A successful walk
writes an instance exactly when it is reachable from the top-level
instances. -/
theorem mem_ofTops_iff (h : Tables.ofTops a tops = .ok t) (x : InstanceId) :
    x ∈ t.instanceOrder ↔ a.ReachableFrom tops x := by
  obtain ⟨hinv, htops⟩ := ofTops_inv h
  constructor
  · exact hinv.mem_R x
  · intro hx
    induction hx with
    | top hi => exact htops _ hi
    | ref _ hr hj ih =>
      obtain ⟨k, hk⟩ := Array.mem_iff_getElem?.1 ih
      obtain ⟨j, -, hj', -⟩ := hinv.refs_before k _ _ hk hr _ hj
      exact Array.mem_iff_getElem?.2 ⟨j, hj'⟩

end CimBroker.Stream

import Mathlib
import CimBroker.Proofs.Stream.Resolution
import CimBroker.Proofs.Stream.RoundTrip

/-!
# How deep the writer walks

The writer visits each top-level instance with a budget of
`maxReferenceDepth + 1` levels (`Tables.appendInstance`): an instance first
met through a chain of more references than that is refused. This module
makes the budget precise; that a walk within it succeeds when it meets no
cycle is `ofTops_ok_of_acyclic`.

* A chain of references as long as the budget, none of it visited yet, makes
  the visit fail (`visit_chain_error`).
* An instance whose references are all written already is written with any
  budget (`visit_ok_of_refs_done`), so a walk that lists every instance after
  those it references succeeds (`ofTops_ok_of_refs_before`).

It also counts what a walk writes (`visit_appends`): the order only grows at
its end, every instance added is the one visited or the target of a
reference, and the reference table gains at most one entry per reference of
an instance added. With `serialize_ok`, that bounds the counts the writer
checks.
-/

namespace CimBroker.Stream

/-- A chain of `n` references from instance `x` of arena `a`. -/
inductive Arena.RefPath (a : Arena) : InstanceId → Nat → Prop
  | nil (x : InstanceId) : a.RefPath x 0
  | cons {x y : InstanceId} {r : InstanceRecord} {n : Nat} :
      a.inst x = some r → y ∈ r.references → a.RefPath y n → a.RefPath x (n + 1)

/-- Every reference of an instance of `a` names an existing instance before
it. -/
def Arena.Descends (a : Arena) : Prop :=
  ∀ x r, a.inst x = some r → ∀ y ∈ r.references, y.index < x.index ∧ (a.inst y).isSome

/-- In an arena whose references point back, a chain of references is no
longer than the position it starts from. -/
theorem Arena.Descends.refPath_le {a : Arena} (h : a.Descends) {x : InstanceId} {n : Nat}
    (hp : a.RefPath x n) : n ≤ x.index := by
  induction hp with
  | nil => exact Nat.zero_le _
  | cons hr hy _ ih =>
    have := (h _ _ hr _ hy).1
    omega

namespace Tables

/-! ## What registering changes -/

@[simp] theorem appendClass_visits (t : Tables) (c : ClassId) : (t.appendClass c).2.visits = t.visits := by
  unfold appendClass
  split <;> rfl

@[simp] theorem appendClass_instanceOrder (t : Tables) (c : ClassId) :
    (t.appendClass c).2.instanceOrder = t.instanceOrder := by
  unfold appendClass
  split <;> rfl

@[simp] theorem appendClass_referenceResolution (t : Tables) (c : ClassId) :
    (t.appendClass c).2.referenceResolution = t.referenceResolution := by
  unfold appendClass
  split <;> rfl

/-- Registering marks the instance done and leaves every other mark. -/
theorem register_visitOf (t : Tables) (i : InstanceId) (c : ClassId) (x : InstanceId) :
    (t.register i c).2.visitOf x = if x = i then some (.done (t.register i c).1) else t.visitOf x := by
  simp only [register, visitOf_mark]
  split
  · rfl
  · simp [visitOf]

theorem register_instanceOrder (t : Tables) (i : InstanceId) (c : ClassId) :
    (t.register i c).2.instanceOrder = t.instanceOrder.push i := by
  simp [register]

theorem register_referenceResolution (t : Tables) (i : InstanceId) (c : ClassId) :
    (t.register i c).2.referenceResolution = t.referenceResolution := by
  simp [register]

/-- A reference entry leaves the marks. -/
@[simp] theorem visitOf_pushReference (t : Tables) (e : Entry) (x : InstanceId) :
    ({ t with referenceResolution := t.referenceResolution.push e } : Tables).visitOf x = t.visitOf x := rfl

variable {a : Arena}

/-! ## A chain too long for the budget -/

/-- **A chain as long as the budget fails.** Instances `xs 0, …, xs m`, each
after the first referencing only the one before, none of them visited: a
visit of `xs j` with a budget of at most `j` levels fails. The induction is
on `j`; each level spends one unit of budget and leaves the rest of the
chain unvisited. -/
theorem visit_chain_error {xs : Nat → InstanceId} {m : Nat} (hinj : ∀ i j, i ≤ m → j ≤ m → xs i = xs j → i = j)
    (hchain : ∀ k < m, ∃ r, a.inst (xs (k + 1)) = some r ∧ r.references = [xs k]) :
    ∀ (j b : Nat) (t : Tables), j ≤ m → b ≤ j → (∀ k ≤ j, t.visitOf (xs k) = none) →
      ∃ e t', visit a b (xs j) t = (.error e, t')
  | 0, b, t, _, hb, hnone => by
    obtain rfl : b = 0 := by omega
    unfold visit
    rw [hnone 0 (Nat.le_refl 0)]
    exact ⟨_, _, rfl⟩
  | j + 1, 0, t, _, _, hnone => by
    unfold visit
    rw [hnone (j + 1) (Nat.le_refl _)]
    exact ⟨_, _, rfl⟩
  | j + 1, b + 1, t, hj, hb, hnone => by
    obtain ⟨r, hr, hrefs⟩ := hchain j (by omega)
    -- marking the head of the chain leaves the rest of it unvisited
    have hrest : ∀ k ≤ j, (t.mark (xs (j + 1)) .inProgress).visitOf (xs k) = none := by
      intro k hk
      have hne : xs k ≠ xs (j + 1) := fun he => by
        have := hinj k (j + 1) (by omega) hj he
        omega
      rw [visitOf_mark, if_neg hne]
      exact hnone k (by omega)
    obtain ⟨e, t', he⟩ := visit_chain_error hinj hchain j b _ (by omega) (by omega) hrest
    have hwalk : r.references.foldl (walkReference (visit a b)) (.ok (), t.mark (xs (j + 1)) .inProgress) =
        (.error e, t') := by
      rw [hrefs, List.foldl_cons, List.foldl_nil]
      simp [walkReference, he]
    exact ⟨e, t', visit_of_walk_error (hnone (j + 1) (Nat.le_refl _)) hr hwalk⟩

/-! ## A walk within the budget -/

/-- Walking references with a visit that succeeds on each target, as long as
every mark in progress stands in relation `Q` to the target, succeeds and
leaves the marks in progress as they were. The induction is on the
targets. -/
theorem foldl_walkReference_ok_of {visitTarget : InstanceId → Tables → Except StreamError Nat × Tables}
    {P : InstanceId → Prop} {Q : InstanceId → InstanceId → Prop}
    (hv : ∀ y t, P y → (∀ z, t.visitOf z = some .inProgress → Q z y) →
      ∃ k t', visitTarget y t = (.ok k, t') ∧
        ∀ z, t'.visitOf z = some .inProgress ↔ t.visitOf z = some .inProgress) :
    ∀ (targets : List InstanceId) (t : Tables),
      (∀ y ∈ targets, P y ∧ ∀ z, t.visitOf z = some .inProgress → Q z y) →
      ∃ t', targets.foldl (walkReference visitTarget) (.ok (), t) = (.ok (), t') ∧
        ∀ z, t'.visitOf z = some .inProgress ↔ t.visitOf z = some .inProgress
  | [], t, _ => ⟨t, rfl, fun _ => Iff.rfl⟩
  | y :: ys, t, hys => by
    obtain ⟨hP, hafter⟩ := hys y List.mem_cons_self
    obtain ⟨k, t₁, hvisit, hprog⟩ := hv y t hP hafter
    obtain ⟨t', hwalk, hprog'⟩ := foldl_walkReference_ok_of hv ys
      { t₁ with referenceResolution := t₁.referenceResolution.push ⟨y.token, k⟩ } fun y' hy' => by
        obtain ⟨hP', hafter'⟩ := hys y' (List.mem_cons_of_mem y hy')
        refine ⟨hP', fun z hz => hafter' z ?_⟩
        rw [visitOf_pushReference] at hz
        exact (hprog z).1 hz
    refine ⟨t', ?_, fun z => (hprog' z).trans (hprog z)⟩
    rw [List.foldl_cons]
    simp only [walkReference, hvisit]
    exact hwalk

/-- An instance whose references are all written is written with any
budget left, and only its own mark changes. -/
theorem visit_ok_of_refs_done (b : Nat) {x : InstanceId} {t : Tables} {r : InstanceRecord}
    (hx : t.visitOf x = none) (hr : a.inst x = some r)
    (hdone : ∀ y ∈ r.references, ∃ k, t.visitOf y = some (.done k)) :
    ∃ k t', visit a (b + 1) x t = (.ok k, t') ∧
      ∀ z, t'.visitOf z = if z = x then some (.done k) else t.visitOf z := by
  -- every target is done, so the walk only adds reference entries
  have hwalk : ∀ (targets : List InstanceId) (t₀ : Tables), (∀ y ∈ targets, ∃ k, t₀.visitOf y = some (.done k)) →
      ∃ t₁, targets.foldl (walkReference (visit a b)) (.ok (), t₀) = (.ok (), t₁) ∧
        ∀ z, t₁.visitOf z = t₀.visitOf z := by
    intro targets
    induction targets with
    | nil => exact fun t₀ _ => ⟨t₀, rfl, fun _ => rfl⟩
    | cons y ys ih =>
      intro t₀ hys
      obtain ⟨k, hk⟩ := hys y List.mem_cons_self
      rw [List.foldl_cons]
      simp only [walkReference, visit_of_done hk]
      obtain ⟨t₁, h₁, hsame⟩ := ih _ fun y' hy' => by
        rw [visitOf_pushReference]
        exact hys y' (List.mem_cons_of_mem y hy')
      exact ⟨t₁, h₁, fun z => (hsame z).trans (visitOf_pushReference _ _ _)⟩
  obtain ⟨t₁, h₁, hsame⟩ := hwalk r.references (t.mark x .inProgress) fun y hy => by
    obtain ⟨k, hk⟩ := hdone y hy
    have hyx : y ≠ x := by
      rintro rfl
      rw [hx] at hk
      cases hk
    exact ⟨k, by rw [visitOf_mark, if_neg hyx]; exact hk⟩
  refine ⟨(t₁.register x r.cls).1, (t₁.register x r.cls).2, visit_of_walk_ok hx hr h₁, fun z => ?_⟩
  rw [register_visitOf, hsame, visitOf_mark]
  by_cases hzx : z = x <;> simp [hzx]

/-! ## What a walk adds -/

/-- What a visit of `x` added to the tables `t` to give `t'`: instances at
the end of the order, each `x` or the target of a reference, and at most one
reference entry per reference of each of them. -/
def Appends (a : Arena) (x : InstanceId) (t t' : Tables) : Prop :=
  ∃ new, t'.instanceOrder.toList = t.instanceOrder.toList ++ new ∧
    t'.referenceResolution.size ≤ t.referenceResolution.size + (new.map fun y => (a.references y).length).sum ∧
    ∀ z ∈ new, z = x ∨ ∃ w, z ∈ a.references w

theorem Appends.refl (x : InstanceId) (t : Tables) : Appends a x t t :=
  ⟨[], by simp, by simp, by simp⟩

/-- Walking the references `targets` of an instance `w`, with a visit that
appends, adds only targets of references, and at most one reference entry
per target besides what the visits add. The induction is on the targets. -/
theorem foldl_walkReference_appends {visitTarget : InstanceId → Tables → Except StreamError Nat × Tables}
    (hv : ∀ y t t' k, visitTarget y t = (.ok k, t') → Appends a y t t') {w : InstanceId} :
    ∀ (targets : List InstanceId) (t t' : Tables), (∀ y ∈ targets, y ∈ a.references w) →
      targets.foldl (walkReference visitTarget) (.ok (), t) = (.ok (), t') →
      ∃ new, t'.instanceOrder.toList = t.instanceOrder.toList ++ new ∧
        t'.referenceResolution.size ≤
          t.referenceResolution.size + (new.map fun y => (a.references y).length).sum + targets.length ∧
        ∀ z ∈ new, ∃ w', z ∈ a.references w'
  | [], t, t', _, h => by
    simp only [List.foldl_nil, Prod.mk.injEq, true_and] at h
    subst h
    exact ⟨[], by simp, by simp, by simp⟩
  | y :: ys, t, t', hys, h => by
    rw [List.foldl_cons] at h
    cases hvy : visitTarget y t with
    | mk result t₁ =>
      cases result with
      | error e =>
        simp only [walkReference, hvy, foldl_walkReference_error, Prod.mk.injEq, reduceCtorEq, false_and] at h
      | ok k =>
        simp only [walkReference, hvy] at h
        obtain ⟨new₁, horder₁, hsize₁, hnew₁⟩ := hv y t t₁ k hvy
        obtain ⟨new₂, horder₂, hsize₂, hnew₂⟩ := foldl_walkReference_appends hv ys _ t'
          (fun y' hy' => hys y' (List.mem_cons_of_mem y hy')) h
        refine ⟨new₁ ++ new₂, by rw [horder₂, horder₁, List.append_assoc], ?_, ?_⟩
        · simp only [Array.size_push] at hsize₂
          simp only [List.map_append, List.sum_append, List.length_cons]
          omega
        · intro z hz
          rcases List.mem_append.1 hz with hz | hz
          · rcases hnew₁ z hz with rfl | hz'
            · exact ⟨w, hys z List.mem_cons_self⟩
            · exact hz'
          · exact hnew₂ z hz

/-- **What a successful visit adds.** The order grows at its end only; each
instance added is the one visited or the target of a reference; the
reference table gains at most one entry per reference of an instance added.
The induction is on the budget. -/
theorem visit_appends : ∀ (b : Nat) (x : InstanceId) (t t' : Tables) (k : Nat),
    visit a b x t = (.ok k, t') → Appends a x t t'
  | b, x, t, t', k, h => by
    rcases visit_eq_ok h with ⟨-, ht⟩ | ⟨b', r, t₁, rfl, -, hr, hwalk, hreg⟩
    · rw [ht]
      exact .refl x t
    · obtain ⟨new, horder, hsize, hnew⟩ := foldl_walkReference_appends (visit_appends b') r.references _ t₁
        (fun y hy => by rw [Arena.references_of_inst hr]; exact hy) hwalk
      have ht' : t' = (t₁.register x r.cls).2 := by rw [hreg]
      subst ht'
      refine ⟨new ++ [x], ?_, ?_, ?_⟩
      · rw [register_instanceOrder, Array.toList_push, horder, mark_instanceOrder, List.append_assoc]
      · rw [register_referenceResolution, List.map_append, List.sum_append, List.map_singleton,
          List.sum_singleton, Arena.references_of_inst hr]
        simp only [mark_referenceResolution] at hsize
        omega
      · intro z hz
        rcases List.mem_append.1 hz with hz | hz
        · exact .inr (hnew z hz)
        · exact .inl (List.mem_singleton.1 hz)

end Tables

/-! ## A whole walk -/

variable {a : Arena} {tops : List InstanceId} {t : Tables}

/-- **A walk is a run of top-level visits.** When the empty tables have
some property `I` and every top-level visit from tables with `I` for the
instances listed before succeeds and leaves `I` for those and the one
visited, the whole walk succeeds. The induction is on the instances still
to visit. -/
theorem ofTops_ok_of_step (I : List InstanceId → Tables → Prop) (h₀ : I [] Tables.empty)
    (hstep : ∀ pre x post t₀, tops = pre ++ x :: post → I pre t₀ →
      ∃ k t₁, t₀.appendInstance a x = (.ok k, t₁) ∧ I (pre ++ [x]) t₁) :
    ∃ t, Tables.ofTops a tops = .ok t := by
  rw [Tables.ofTops_eq_foldlM]
  suffices key : ∀ (xs pre : List InstanceId) (t₀ : Tables), pre ++ xs = tops → I pre t₀ →
      ∃ t, xs.foldlM (Tables.visitTop a) t₀ = .ok t from
    key tops [] Tables.empty rfl h₀
  intro xs
  induction xs with
  | nil => exact fun _ t₀ _ _ => ⟨t₀, rfl⟩
  | cons x xs ih =>
    intro pre t₀ hpre hI
    obtain ⟨k, t₁, hvisit, hI₁⟩ := hstep pre x xs t₀ hpre.symm hI
    obtain ⟨t, ht⟩ := ih (pre ++ [x]) t₁ (by rw [← hpre]; simp) hI₁
    refine ⟨t, ?_⟩
    rw [List.foldlM_cons, Tables.visitTop_eq_ok.2 ⟨k, hvisit⟩]
    exact ht

/-- **A walk in an order that writes references first succeeds.** When each
top-level instance exists and every instance it references is listed before
it, each visit finds those references written already. -/
theorem ofTops_ok_of_refs_before
    (htops : ∀ pre x post, tops = pre ++ x :: post → ∃ r, a.inst x = some r ∧ ∀ y ∈ r.references, y ∈ pre) :
    ∃ t, Tables.ofTops a tops = .ok t := by
  -- between two top-level visits no instance is in progress and every instance listed so far is written
  refine ofTops_ok_of_step
    (fun pre t₀ => (∀ y ∈ pre, ∃ k, t₀.visitOf y = some (.done k)) ∧ ∀ z, t₀.visitOf z ≠ some .inProgress)
    ⟨by simp, by simp [Tables.empty, Tables.visitOf]⟩ fun pre x post t₀ hsplit ⟨hdone, hnone⟩ => ?_
  obtain ⟨r, hr, hrefs⟩ := htops pre x post hsplit
  -- the visit of `x` either finds it written or writes it, changing no other mark
  obtain ⟨k, t₁, hvisit, hmarks⟩ : ∃ k t₁, t₀.appendInstance a x = (.ok k, t₁) ∧
      ∀ z, t₁.visitOf z = if z = x then some (.done k) else t₀.visitOf z := by
    cases hv : t₀.visitOf x with
    | some v =>
      cases v with
      | done k =>
        refine ⟨k, t₀, by simp only [Tables.appendInstance]; exact Tables.visit_of_done hv, fun z => ?_⟩
        by_cases hzx : z = x
        · simp [hzx, hv]
        · simp [hzx]
      | inProgress => exact absurd hv (hnone x)
    | none => exact Tables.visit_ok_of_refs_done maxReferenceDepth hv hr fun y hy => hdone y (hrefs y hy)
  refine ⟨k, t₁, hvisit, fun y hy => ?_, fun z hz => ?_⟩
  · rw [hmarks]
    by_cases hyx : y = x
    · exact ⟨k, if_pos hyx⟩
    · rw [if_neg hyx]
      exact hdone y (by simpa [hyx] using hy)
  · rw [hmarks] at hz
    split at hz
    · cases hz
    · exact hnone z hz

/-- **What a whole walk writes**: each written instance is a top-level
instance or the target of a reference, and the reference table has at most
one entry per reference of a written instance. -/
theorem ofTops_appends (h : Tables.ofTops a tops = .ok t) :
    t.referenceResolution.size ≤ (t.instanceOrder.toList.map fun y => (a.references y).length).sum ∧
      ∀ z ∈ t.instanceOrder, z ∈ tops ∨ ∃ w, z ∈ a.references w := by
  refine Tables.ofTops_induction (fun _ t₀ => t₀.referenceResolution.size ≤
      (t₀.instanceOrder.toList.map fun y => (a.references y).length).sum ∧
      ∀ z ∈ t₀.instanceOrder, z ∈ tops ∨ ∃ w, z ∈ a.references w)
    ⟨by simp [Tables.empty], by simp [Tables.empty]⟩ (fun pre x post t₀ k t₁ hsplit hP happ => ?_) h
  obtain ⟨hsize, hmem⟩ := hP
  obtain ⟨new, horder, hsize₁, hnew⟩ := Tables.visit_appends _ x t₀ t₁ k happ
  refine ⟨?_, fun z hz => ?_⟩
  · rw [horder, List.map_append, List.sum_append]
    omega
  · rw [← Array.mem_toList_iff, horder] at hz
    rcases List.mem_append.1 hz with hz | hz
    · exact hmem z (Array.mem_toList_iff.1 hz)
    · rcases hnew z hz with rfl | hz'
      · exact .inl (by simp [hsplit])
      · exact .inr hz'

/-- A list without repeats whose one element passing a test is `x` keeps
just `x` under that test. -/
theorem List.filter_eq_singleton_of_nodup {α : Type} [DecidableEq α] {l : List α} {p : α → Bool}
    {x : α} (hnodup : l.Nodup) (hx : x ∈ l) (hpx : p x = true) (hp : ∀ z ∈ l, p z = true → z = x) :
    l.filter p = [x] := by
  have hfilter : l.filter p = l.filter (· = x) := by
    apply List.filter_congr
    intro z hz
    by_cases hzx : z = x
    · subst hzx
      simp [hpx]
    · simp only [hzx, decide_false]
      exact Bool.eq_false_iff.2 fun hpz => hzx (hp z hz hpz)
  rw [hfilter, List.filter_eq, List.count_eq_one_of_mem hnodup hx]
  rfl

/-- **Top-level instances that nothing references are written in the order
given.** Such an instance is written by its own top-level visit and by no
other, since every other instance a visit writes is the target of a
reference. -/
theorem filter_mem_ofTops (h : Tables.ofTops a tops = .ok t) (hnodup : tops.Nodup)
    (hunref : ∀ x ∈ tops, ∀ w, x ∉ a.references w) :
    t.instanceOrder.toList.filter (fun z => decide (z ∈ tops)) = tops := by
  -- the top-level instances written so far are those visited, in the order visited
  refine (Tables.ofTops_induction (fun pre t₀ => t₀.Inv a (fun _ => True) ∧
      t₀.instanceOrder.toList.filter (fun z => decide (z ∈ tops)) = pre)
    ⟨Tables.Inv.empty, by simp [Tables.empty]⟩ (fun pre x post t₀ k t₁ hsplit hP happ => ?_) h).2
  obtain ⟨hinv, hfilter⟩ := hP
  have hxtops : x ∈ tops := by simp [hsplit]
  -- `x` is not written before its own visit, since the top-level instances written are those before it
  have hout : x ∉ t₀.instanceOrder := by
    intro hx
    have hxpre : x ∈ pre := by
      rw [← hfilter]
      exact List.mem_filter.2 ⟨Array.mem_toList_iff.2 hx, decide_eq_true hxtops⟩
    have hnd : (pre ++ x :: post).Nodup := hsplit ▸ hnodup
    exact (List.nodup_append.1 hnd).2.2 x hxpre x List.mem_cons_self rfl
  obtain ⟨hinv₁, -, hk⟩ := Tables.visit_ok (R := fun _ => True) (fun _ _ _ _ _ _ => trivial) _ x t₀ t₁ k
    trivial hinv happ
  obtain ⟨new, horder, -, hnew⟩ := Tables.visit_appends _ x t₀ t₁ k happ
  -- of what the visit added, only `x` is a top-level instance
  have hxnew : x ∈ new := by
    have hmem : x ∈ t₁.instanceOrder.toList := Array.mem_toList_iff.2 (Array.mem_of_getElem? hk)
    rw [horder] at hmem
    rcases List.mem_append.1 hmem with hmem | hmem
    · exact absurd (Array.mem_toList_iff.1 hmem) hout
    · exact hmem
  have htop : ∀ z ∈ new, z ∈ tops → z = x := by
    intro z hz hztops
    rcases hnew z hz with rfl | ⟨w, hw⟩
    · rfl
    · exact absurd hw (hunref z hztops w)
  have hnodup₁ := hinv₁.nodup
  rw [← Array.toList_inj.mpr rfl, horder] at hnodup₁
  refine ⟨hinv₁, ?_⟩
  rw [horder, List.filter_append, hfilter,
    List.filter_eq_singleton_of_nodup (List.nodup_append.1 hnodup₁).2.1 hxnew (decide_eq_true hxtops)
      fun z hz hzt => htop z hz (of_decide_eq_true hzt)]

/-- A map into `Except` succeeds when it succeeds on every element. The
induction is on the list. -/
theorem exists_mapM_eq_ok {ε α β : Type} {f : α → Except ε β} :
    ∀ {l : List α}, (∀ x ∈ l, ∃ y, f x = .ok y) → ∃ ys, l.mapM f = .ok ys
  | [], _ => ⟨[], rfl⟩
  | x :: l, h => by
    obtain ⟨y, hy⟩ := h x List.mem_cons_self
    obtain ⟨ys, hys⟩ := exists_mapM_eq_ok fun z hz => h z (List.mem_cons_of_mem x hz)
    refine ⟨y :: ys, ?_⟩
    rw [List.mapM_cons, hy, Except.ok_bind, hys]
    rfl

/-- The class table of a walk has no more entries than the order: each of
its classes, listed once, is the class of a written instance. -/
theorem Tables.Inv.size_classTable_le {R : InstanceId → Prop} (h : t.Inv a R) :
    t.classTable.size ≤ t.instanceOrder.size := by
  have hsub : t.classTable.toList ⊆ t.instanceOrder.toList.filterMap fun x => (a.inst x).map (·.cls) := by
    intro c hc
    obtain ⟨x, r, hx, hr, rfl⟩ := h.classes_used c (Array.mem_toList_iff.1 hc)
    exact List.mem_filterMap.2 ⟨x, Array.mem_toList_iff.2 hx, by simp [hr]⟩
  have := Nat.le_trans (List.Nodup.subperm h.classes_nodup hsub).length_le (List.length_filterMap_le _ _)
  simpa using this

/-- A bind succeeds when its first step does and its continuation succeeds
on every value. -/
theorem exists_bind_eq_ok {ε α β : Type} {m : Except ε α} {f : α → Except ε β}
    (hm : ∃ y, m = .ok y) (hf : ∀ y, ∃ z, f y = .ok z) : ∃ z, m >>= f = .ok z := by
  obtain ⟨y, rfl⟩ := hm
  exact hf y

/-- Every class that a walk of an arena with the invariant lists is a class
of the arena. -/
theorem Tables.Inv.exists_cls {R : InstanceId → Prop} (ha : a.Inv) (h : t.Inv a R) {c : ClassId}
    (hc : c ∈ t.classTable) : ∃ cr, a.cls c = some cr := by
  obtain ⟨x, r, -, hr, rfl⟩ := h.classes_used c hc
  obtain ⟨cr, hcr, -⟩ := ha.linked r (Arena.mem_of_inst_eq_some hr)
  exact ⟨cr, hcr⟩

/-- Every instance that a walk writes is an instance of the arena. -/
theorem Tables.Inv.exists_inst {R : InstanceId → Prop} (h : t.Inv a R) {x : InstanceId}
    (hx : x ∈ t.instanceOrder) : ∃ r, a.inst x = some r := by
  obtain ⟨k, hk⟩ := Array.mem_iff_getElem?.1 hx
  obtain ⟨r, -, hr, -, -⟩ := h.classEntry k x hk
  exact ⟨r, hr⟩

/-- **A walk whose counts fit is written.** When the walk of a reachable
arena succeeds with at most `maxU32` instances and reference entries, the
writer succeeds: the class table is no longer than the order, and every
class and instance it lists exists. -/
theorem serialize_ok (ha : a.Inv) (ht : Tables.ofTops a tops = .ok t)
    (hcount : t.instanceOrder.size ≤ maxU32) (hrefs : t.referenceResolution.size ≤ maxU32) :
    ∃ bytes, serialize a tops = .ok bytes := by
  have hinv := (ofTops_inv ht).1
  rw [serialize, ht, Except.ok_bind, putCount_eq_ok.2 ⟨Nat.le_trans hinv.size_classTable_le hcount, rfl⟩,
    Except.ok_bind]
  refine exists_bind_eq_ok (exists_mapM_eq_ok fun c hc => ?_) fun classes => ?_
  · obtain ⟨cr, hcr⟩ := hinv.exists_cls ha (Array.mem_toList_iff.1 hc)
    exact ⟨cr, by simp [hcr]⟩
  rw [putTable_eq_ok.2 ⟨by simpa [hinv.size_classResolution] using hcount, rfl⟩, Except.ok_bind,
    putTable_eq_ok.2 ⟨by simpa using hrefs, rfl⟩, Except.ok_bind]
  refine exists_bind_eq_ok (exists_mapM_eq_ok fun x hx => ?_) fun recs => ⟨_, rfl⟩
  obtain ⟨r, hr⟩ := hinv.exists_inst (Array.mem_toList_iff.1 hx)
  exact ⟨r, by simp [hr]⟩

end CimBroker.Stream

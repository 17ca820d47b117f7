import CimBroker.Proofs.Stream.Depth

/-!
# Walks of graphs without cycles

The writer walks the references of each top-level instance depth first
(`Tables.visit`). An instance is marked in progress while its references are
walked and done once it is registered, and a visit that finds its instance
in progress fails. So the marks in progress are the path the walk is on:
each of them leads by a chain of references to the instance being visited
(`Tables.LeadsTo`), and a successful visit leaves them as they were
(`Tables.visit_eq_ok_inProgress`). An instance found in progress therefore
lies on a cycle of references (`Arena.OnCycle`).

The budget of `maxReferenceDepth + 1` levels is spent only on instances not
met before, along that path. So in an arena whose references name existing
instances, a walk succeeds when every top-level instance exists, no cycle is
reachable from them and no chain of references from them is longer than
`maxReferenceDepth` (`ofTops_ok_of_acyclic`). An arena whose references all
point back has no cycle, which gives the walks of decoded arenas
(`ofTops_ok_of_depth`).

## Main results

* `Tables.visit_eq_ok_inProgress` — a successful visit leaves the marks in
  progress as they were.
* `Tables.visit_ok_of_acyclic`, `ofTops_ok_of_acyclic` — a visit, and a
  whole walk, with no cycle and no chain too long succeed.
* `ofTops_ok_of_depth` — the same in an arena whose references point back.
-/

namespace CimBroker.Stream

/-! ## Chains and cycles of references -/

/-- A chain of `n` references of arena `a` that leads from instance `x` to
instance `y`. -/
inductive Arena.Chain (a : Arena) (x : InstanceId) : InstanceId → Nat → Prop
  | nil : a.Chain x x 0
  | snoc {y z : InstanceId} {r : InstanceRecord} {n : Nat} :
      a.Chain x y n → a.inst y = some r → z ∈ r.references → a.Chain x z (n + 1)

/-- Instance `x` lies on a cycle of references: a chain of at least one
reference leads from it back to it. -/
def Arena.OnCycle (a : Arena) (x : InstanceId) : Prop :=
  ∃ n, a.Chain x x (n + 1)

namespace Arena

variable {a : Arena} {tops : List InstanceId} {x y : InstanceId} {n : Nat}

/-- A chain from `x` to `y` followed by a chain from `y` is a chain from
`x`. The induction is on the first chain. -/
theorem Chain.refPath_append (h : a.Chain x y n) {m : Nat} (hp : a.RefPath y m) : a.RefPath x (n + m) := by
  induction h generalizing m with
  | nil => simpa using hp
  | snoc _ hr hz ih =>
    rw [Nat.add_right_comm]
    exact ih (.cons hr hz hp)

/-- What a chain leads to from a reachable instance is reachable. -/
theorem ReachableFrom.of_chain (hx : a.ReachableFrom tops x) (h : a.Chain x y n) : a.ReachableFrom tops y := by
  induction h with
  | nil => exact hx
  | snoc _ hr hz ih => exact .ref ih hr hz

end Arena

/-- In an arena whose references point back, a chain of references ends
below where it starts, by at least its length. The induction is on the
chain. -/
theorem Arena.Descends.chain_index_le {a : Arena} (h : a.Descends) {x y : InstanceId} {n : Nat}
    (hc : a.Chain x y n) : y.index + n ≤ x.index := by
  induction hc with
  | nil => simp
  | snoc _ hr hz ih =>
    have := (h _ _ hr _ hz).1
    omega

/-- An arena whose references point back has no cycle. -/
theorem Arena.Descends.not_onCycle {a : Arena} (h : a.Descends) (x : InstanceId) : ¬ a.OnCycle x := by
  rintro ⟨n, hn⟩
  have := h.chain_index_le hn
  omega

namespace Tables

variable {a : Arena}

/-! ## The path of the walk -/

/-- Every instance in progress in `t` leads by at least one reference to
`x`: the marks in progress are a path of the walk that ends at `x`. -/
def LeadsTo (a : Arena) (t : Tables) (x : InstanceId) : Prop :=
  ∀ z, t.visitOf z = some .inProgress → ∃ n, a.Chain z x (n + 1)

/-- Marking `x` in progress, the path goes on through `x` to each instance
it references. -/
theorem LeadsTo.mark {t : Tables} {x y : InstanceId} {r : InstanceRecord} (h : t.LeadsTo a x)
    (hr : a.inst x = some r) (hy : y ∈ r.references) : (t.mark x .inProgress).LeadsTo a y := by
  intro z hz
  rw [visitOf_mark] at hz
  split at hz
  · rename_i hzx
    subst hzx
    exact ⟨0, .snoc .nil hr hy⟩
  · obtain ⟨n, hn⟩ := h z hz
    exact ⟨n + 1, .snoc hn hr hy⟩

/-- The path depends on the marks in progress only. -/
theorem LeadsTo.of_inProgress_iff {t t' : Tables} {x : InstanceId} (h : t.LeadsTo a x)
    (hsame : ∀ z, t'.visitOf z = some .inProgress ↔ t.visitOf z = some .inProgress) : t'.LeadsTo a x :=
  fun z hz => h z ((hsame z).1 hz)

/-- Walking references with a visit that, when it succeeds, leaves the marks
in progress as they were: a walk that succeeds leaves them too. The
induction is on the targets. -/
theorem foldl_walkReference_eq_ok_inProgress
    {visitTarget : InstanceId → Tables → Except StreamError Nat × Tables}
    (hv : ∀ y t t' k, visitTarget y t = (.ok k, t') →
      ∀ z, t'.visitOf z = some .inProgress ↔ t.visitOf z = some .inProgress) :
    ∀ (targets : List InstanceId) (t t' : Tables), targets.foldl (walkReference visitTarget) (.ok (), t) = (.ok (), t') →
      ∀ z, t'.visitOf z = some .inProgress ↔ t.visitOf z = some .inProgress
  | [], t, t', h => by
    simp only [List.foldl_nil, Prod.mk.injEq, true_and] at h
    subst h
    exact fun _ => Iff.rfl
  | y :: ys, t, t', h => by
    rw [List.foldl_cons] at h
    cases hvy : visitTarget y t with
    | mk result t₁ =>
      cases result with
      | error e =>
        simp only [walkReference, hvy, foldl_walkReference_error, Prod.mk.injEq, reduceCtorEq, false_and] at h
      | ok k =>
        simp only [walkReference, hvy] at h
        intro z
        rw [foldl_walkReference_eq_ok_inProgress hv ys _ t' h z, visitOf_pushReference]
        exact hv y t t₁ k hvy z

/-- Registering an instance that was unmarked before the walk of its
references gives back the marks in progress from before that walk. -/
theorem register_inProgress_iff {t t₁ : Tables} {x : InstanceId} (c : ClassId) (hx : t.visitOf x = none)
    (h₁ : ∀ z, t₁.visitOf z = some .inProgress ↔ (t.mark x .inProgress).visitOf z = some .inProgress)
    (z : InstanceId) : (t₁.register x c).2.visitOf z = some .inProgress ↔ t.visitOf z = some .inProgress := by
  rw [register_visitOf]
  by_cases hzx : z = x
  · subst hzx
    simp [hx]
  · rw [if_neg hzx, h₁ z, visitOf_mark, if_neg hzx]

/-- **A successful visit leaves the marks in progress as they were**: it
marks its instance in progress only while walking its references, and done
after. The induction is on the budget. -/
theorem visit_eq_ok_inProgress : ∀ (b : Nat) (x : InstanceId) (t t' : Tables) (k : Nat),
    visit a b x t = (.ok k, t') → ∀ z, t'.visitOf z = some .inProgress ↔ t.visitOf z = some .inProgress
  | b, x, t, t', k, h => by
    rcases visit_eq_ok h with ⟨-, rfl⟩ | ⟨b', r, t₁, rfl, hnone, -, hwalk, hreg⟩
    · exact fun _ => Iff.rfl
    · have ht' : t' = (t₁.register x r.cls).2 := by rw [hreg]
      subst ht'
      exact register_inProgress_iff r.cls hnone
        (foldl_walkReference_eq_ok_inProgress (visit_eq_ok_inProgress b') r.references _ t₁ hwalk)

/-- **A visit succeeds in a graph without cycles.** In an arena whose
references name existing instances, visit an existing instance
`x` of a set `R` closed under references and free of cycles, every chain of
references from which is shorter than the budget, while the marks in
progress lead to `x`: the visit succeeds. Were `x` in progress, it would lie
on a cycle. The induction is on the budget. -/
theorem visit_ok_of_acyclic (hrefs : ∀ x r, a.inst x = some r → ∀ y ∈ r.references, (a.inst y).isSome)
    {R : InstanceId → Prop} (hclosed : ∀ x r y, R x → a.inst x = some r → y ∈ r.references → R y)
    (hacyc : ∀ x, R x → ¬ a.OnCycle x) :
    ∀ (b : Nat) (x : InstanceId) (t : Tables), R x → (a.inst x).isSome → (∀ n, a.RefPath x n → n < b) →
      t.LeadsTo a x → ∃ k t', visit a b x t = (.ok k, t')
  | 0, x, _, _, _, hdepth, _ => absurd (hdepth 0 (.nil x)) (Nat.lt_irrefl 0)
  | b + 1, x, t, hR, hx, hdepth, hpath => by
    cases hv : t.visitOf x with
    | some v =>
      cases v with
      | done k => exact ⟨k, t, visit_of_done hv⟩
      | inProgress => exact absurd (hpath x hv) (hacyc x hR)
    | none =>
      obtain ⟨r, hr⟩ := Option.isSome_iff_exists.1 hx
      -- the references, one level down, within the budget left and on the path through `x`
      obtain ⟨t₁, hwalk, -⟩ := foldl_walkReference_ok_of
        (P := fun y => R y ∧ (a.inst y).isSome ∧ ∀ n, a.RefPath y n → n < b)
        (Q := fun z y => ∃ n, a.Chain z y (n + 1))
        (fun y t' hP hpath' => by
          obtain ⟨k, t'', hvisit⟩ := visit_ok_of_acyclic hrefs hclosed hacyc b y t' hP.1 hP.2.1 hP.2.2 hpath'
          exact ⟨k, t'', hvisit, visit_eq_ok_inProgress b y t' t'' k hvisit⟩)
        r.references (t.mark x .inProgress) fun y hy => by
          refine ⟨⟨hclosed x r y hR hr hy, hrefs x r hr y hy, fun n hn => ?_⟩, hpath.mark hr hy⟩
          have := hdepth (n + 1) (.cons hr hy hn)
          omega
      exact ⟨_, _, visit_of_walk_ok hv hr hwalk⟩

end Tables

/-! ## A whole walk -/

variable {a : Arena} {tops : List InstanceId}

/-- **A walk of a graph without cycles succeeds** when every top-level
instance exists, no instance reachable from them lies on a cycle, and no
chain of references from them is longer than `maxReferenceDepth`. Between
two top-level visits no instance is in progress. -/
theorem ofTops_ok_of_acyclic (hrefs : ∀ x r, a.inst x = some r → ∀ y ∈ r.references, (a.inst y).isSome)
    (htops : ∀ x ∈ tops, (a.inst x).isSome) (hacyc : ∀ x, a.ReachableFrom tops x → ¬ a.OnCycle x)
    (hdepth : ∀ x ∈ tops, ∀ n, a.RefPath x n → n ≤ maxReferenceDepth) :
    ∃ t, Tables.ofTops a tops = .ok t := by
  refine ofTops_ok_of_step (fun _ t₀ => ∀ z, t₀.visitOf z ≠ some .inProgress)
    (by simp [Tables.empty, Tables.visitOf]) fun pre x post t₀ hsplit hnone => ?_
  have hx : x ∈ tops := by simp [hsplit]
  obtain ⟨k, t₁, hvisit⟩ := Tables.visit_ok_of_acyclic hrefs (fun _ _ _ hy hr hz => hy.closed hr hz) hacyc
    (maxReferenceDepth + 1) x t₀ (.top hx) (htops x hx) (fun n hn => Nat.lt_succ_of_le (hdepth x hx n hn))
    (fun z hz => absurd hz (hnone z))
  exact ⟨k, t₁, hvisit, fun z hz => hnone z ((Tables.visit_eq_ok_inProgress _ x t₀ t₁ k hvisit z).1 hz)⟩

/-- **A whole walk within the budget succeeds**, in an arena whose
references all name earlier instances, when no chain of references from a
top-level instance is longer than `maxReferenceDepth`: the order of the
arena rules out cycles. -/
theorem ofTops_ok_of_depth (hdesc : a.Descends)
    (htops : ∀ x ∈ tops, (a.inst x).isSome ∧ ∀ n, a.RefPath x n → n ≤ maxReferenceDepth) :
    ∃ t, Tables.ofTops a tops = .ok t :=
  ofTops_ok_of_acyclic (fun x r hr y hy => (hdesc x r hr y hy).2) (fun x hx => (htops x hx).1)
    (fun x _ => hdesc.not_onCycle x) fun x hx => (htops x hx).2

end CimBroker.Stream

import CimBroker.Proofs.Stream.Reencode

/-!
# Same content is a partial equivalence

`Arena.sameContent` compares an instance of one arena with an instance of
another: class shapes, host names, namespaces, values and numbers of
reference slots must agree, and the references, slot by slot, must lead to
instances of the same content. The comparison follows every path of
references anew, with one budget of `maxReferenceDepth + 1` levels shared
along each path, and gives up when the budget runs out.

## Main results

* `sameContentWithin_succ` — one level of the comparison.
* `sameContent_partialEquivalence` — the comparison is symmetric and
  transitive on arenas the operations build, and it holds of an instance
  and itself exactly when the instance exists and no path of references
  from it is longer than `maxReferenceDepth`.
-/

namespace CimBroker.Stream

/-- What the comparison checks of two instances before it follows their
references: same class shape, host name, namespace, number of reference
slots, and values. -/
structure SameFields (cx : ClassRecord) (ix : InstanceRecord) (cy : ClassRecord) (iy : InstanceRecord) : Prop where
  shape : cx.sameShape cy = true
  hostName : ix.hostName = iy.hostName
  ns : ix.ns = iy.ns
  extRefCount : ix.extRefCount = iy.extRefCount
  values : ∀ k < ix.valueCount, ix.value k = iy.value k

theorem ClassRecord.sameShape_iff {c d : ClassRecord} :
    c.sameShape d = true ↔ c.name = d.name ∧ c.ns = d.ns ∧ c.properties = d.properties := by
  simp [ClassRecord.sameShape, and_assoc]

namespace SameFields

variable {cx cy cz : ClassRecord} {ix iy iz : InstanceRecord}

theorem refl (cx : ClassRecord) (ix : InstanceRecord) : SameFields cx ix cx ix :=
  ⟨ClassRecord.sameShape_iff.2 ⟨rfl, rfl, rfl⟩, rfl, rfl, rfl, fun _ _ => rfl⟩

/-- The fields agree the other way round when the second instance has no
more values than the first. -/
theorem symm (h : SameFields cx ix cy iy) (hcount : iy.valueCount ≤ ix.valueCount) : SameFields cy iy cx ix := by
  obtain ⟨hname, hns, hprops⟩ := ClassRecord.sameShape_iff.1 h.shape
  exact ⟨ClassRecord.sameShape_iff.2 ⟨hname.symm, hns.symm, hprops.symm⟩, h.hostName.symm, h.ns.symm,
    h.extRefCount.symm, fun k hk => (h.values k (by omega)).symm⟩

/-- Agreement passes through a middle instance with at least as many values
as the first. -/
theorem trans (h₁ : SameFields cx ix cy iy) (h₂ : SameFields cy iy cz iz) (hcount : ix.valueCount ≤ iy.valueCount) :
    SameFields cx ix cz iz := by
  obtain ⟨hname₁, hns₁, hprops₁⟩ := ClassRecord.sameShape_iff.1 h₁.shape
  obtain ⟨hname₂, hns₂, hprops₂⟩ := ClassRecord.sameShape_iff.1 h₂.shape
  exact ⟨ClassRecord.sameShape_iff.2 ⟨hname₁.trans hname₂, hns₁.trans hns₂, hprops₁.trans hprops₂⟩,
    h₁.hostName.trans h₂.hostName, h₁.ns.trans h₂.ns, h₁.extRefCount.trans h₂.extRefCount,
    fun k hk => (h₁.values k hk).trans (h₂.values k (by omega))⟩

end SameFields

/-- A sound class has a name for each of its properties. -/
theorem ClassRecord.Sound.length_properties {c : ClassRecord} (hc : c.Sound) : c.properties.length = c.propertyCount := by
  have hall := List.filterMap_length_eq_length.2 fun i (hi : i ∈ List.range c.propertyCount) =>
    hc.names (2 + i) (by simp only [List.mem_range, ClassRecord.propertyCount] at hi; omega)
  simpa [ClassRecord.properties] using hall

theorem InstanceRecord.mem_references_iff_slot {i : InstanceRecord} {y : InstanceId} :
    y ∈ i.references ↔ ∃ s < i.extRefCount, i.extRef s = some y := by
  simp [InstanceRecord.references]

/-! ## Related slots -/

section Slots

variable {α β γ : Type} {o₁ : Option α} {o₂ : Option β} {o₃ : Option γ}

theorem rel_flip {r : α → β → Prop} {r' : β → α → Prop} (h : ∀ u v, r u v → r' v u) :
    Option.Rel r o₁ o₂ → Option.Rel r' o₂ o₁
  | .some huv => .some (h _ _ huv)
  | .none => .none

theorem rel_comp {r : α → β → Prop} {r' : β → γ → Prop} {r'' : α → γ → Prop}
    (h : ∀ u v w, r u v → r' v w → r'' u w) : Option.Rel r o₁ o₂ → Option.Rel r' o₂ o₃ → Option.Rel r'' o₁ o₃
  | .some huv, .some hvw => .some (h _ _ _ huv hvw)
  | .none, .none => .none

end Slots

namespace Arena

/-! ## One level of the comparison -/

/-- **One level of the comparison.** Two instances have the same content
within `n + 1` levels when both exist, with their classes, agree on their
fields, and their reference slots, slot by slot, are both empty or lead to
instances of the same content within `n` levels. -/
theorem sameContentWithin_succ {a b : Arena} {n : Nat} {x y : InstanceId} :
    sameContentWithin a b (n + 1) x y = true ↔ ∃ ix iy cx cy, a.inst x = some ix ∧ b.inst y = some iy ∧
      a.cls ix.cls = some cx ∧ b.cls iy.cls = some cy ∧ SameFields cx ix cy iy ∧
      ∀ s < ix.extRefCount, Option.Rel (fun rx ry => sameContentWithin a b n rx ry = true) (ix.extRef s) (iy.extRef s) := by
  rw [sameContentWithin]
  -- one case for each record the comparison looks up
  cases hx : a.inst x with
  | none => simp
  | some ix =>
    cases hy : b.inst y with
    | none => simp
    | some iy =>
      dsimp only
      cases hcx : a.cls ix.cls with
      | none => simp [hcx, -cls_eq_some]
      | some cx =>
        cases hcy : b.cls iy.cls with
        | none => simp [hcy, -cls_eq_some]
        | some cy =>
          simp only [Bool.and_eq_true, beq_iff_eq, List.all_eq_true, List.mem_range, Option.some.injEq,
            exists_and_left, exists_eq_left', hcx, hcy]
          refine and_congr ?_ (forall_congr' fun s => imp_congr_right fun _ => ?_)
          · constructor
            · rintro ⟨⟨⟨⟨hshape, hhost⟩, hns⟩, hcount⟩, hvalues⟩
              exact ⟨hshape, hhost, hns, hcount, hvalues⟩
            · rintro ⟨hshape, hhost, hns, hcount, hvalues⟩
              exact ⟨⟨⟨⟨hshape, hhost⟩, hns⟩, hcount⟩, hvalues⟩
          · -- a slot pair: both empty, or both naming instances compared one level down
            cases ix.extRef s <;> cases iy.extRef s <;> simp

@[simp] theorem sameContentWithin_zero (a b : Arena) (x y : InstanceId) : sameContentWithin a b 0 x y = false := rfl

/-! ## Values and references of arenas the operations build -/

/-- In an arena satisfying the invariant, an instance has one value per
property name of its class. -/
theorem Inv.valueCount_eq {a : Arena} (ha : a.Inv) {x : InstanceId} {ix : InstanceRecord} {cx : ClassRecord}
    (hx : a.inst x = some ix) (hcx : a.cls ix.cls = some cx) : ix.valueCount = cx.properties.length := by
  obtain ⟨c, hc, hval⟩ := ha.linked ix (Array.mem_of_getElem? hx)
  rw [hcx, Option.some.injEq] at hc
  subst hc
  rw [hval, (ha.classes_sound _ (Array.mem_of_getElem? hcx)).length_properties]

/-- Instances whose classes have the same shape have as many values. -/
theorem Inv.valueCount_eq_of_sameFields {a b : Arena} (ha : a.Inv) (hb : b.Inv) {x y : InstanceId}
    {ix iy : InstanceRecord} {cx cy : ClassRecord} (hx : a.inst x = some ix) (hy : b.inst y = some iy)
    (hcx : a.cls ix.cls = some cx) (hcy : b.cls iy.cls = some cy) (hf : SameFields cx ix cy iy) :
    ix.valueCount = iy.valueCount := by
  rw [ha.valueCount_eq hx hcx, hb.valueCount_eq hy hcy, (ClassRecord.sameShape_iff.1 hf.shape).2.2]

/-! ## Symmetry and transitivity -/

variable {a b c : Arena}

/-- **Same content, the other way round.** The induction is on the budget;
the classes' shapes give the instances as many values. -/
theorem sameContentWithin_swap (ha : a.Inv) (hb : b.Inv) :
    ∀ (n : Nat) (x y : InstanceId), sameContentWithin a b n x y = true → sameContentWithin b a n y x = true
  | 0, x, y, h => by simp at h
  | n + 1, x, y, h => by
    obtain ⟨ix, iy, cx, cy, hx, hy, hcx, hcy, hf, hslots⟩ := sameContentWithin_succ.1 h
    have hcount := ha.valueCount_eq_of_sameFields hb hx hy hcx hcy hf
    refine sameContentWithin_succ.2 ⟨iy, ix, cy, cx, hy, hx, hcy, hcx, hf.symm hcount.ge, fun s hs => ?_⟩
    exact rel_flip (fun rx ry h' => sameContentWithin_swap ha hb n rx ry h') (hslots s (hf.extRefCount ▸ hs))

theorem sameContentWithin_comm (ha : a.Inv) (hb : b.Inv) (n : Nat) (x y : InstanceId) :
    sameContentWithin a b n x y = sameContentWithin b a n y x :=
  Bool.eq_iff_iff.2 ⟨sameContentWithin_swap ha hb n x y, sameContentWithin_swap hb ha n y x⟩

/-- **Same content passes through a middle instance.** The induction is on
the budget; the middle instance and its class are looked up once. -/
theorem sameContentWithin_trans (ha : a.Inv) (hb : b.Inv) :
    ∀ (n : Nat) (x y z : InstanceId), sameContentWithin a b n x y = true → sameContentWithin b c n y z = true →
      sameContentWithin a c n x z = true
  | 0, x, y, z, h, _ => by simp at h
  | n + 1, x, y, z, h₁, h₂ => by
    obtain ⟨ix, iy, cx, cy, hx, hy, hcx, hcy, hf₁, hslots₁⟩ := sameContentWithin_succ.1 h₁
    obtain ⟨iy', iz, cy', cz, hy', hz, hcy', hcz, hf₂, hslots₂⟩ := sameContentWithin_succ.1 h₂
    have hiy : iy = iy' := Option.some.inj (hy.symm.trans hy')
    subst hiy
    have hcy : cy = cy' := Option.some.inj (hcy.symm.trans hcy')
    subst hcy
    have hcount := ha.valueCount_eq_of_sameFields hb hx hy hcx hcy hf₁
    refine sameContentWithin_succ.2 ⟨ix, iz, cx, cz, hx, hz, hcx, hcz, hf₁.trans hf₂ hcount.le, fun s hs => ?_⟩
    exact rel_comp (fun rx ry rz h h' => sameContentWithin_trans ha hb n rx ry rz h h') (hslots₁ s hs)
      (hslots₂ s (hf₁.extRefCount ▸ hs))

/-! ## An instance and itself -/

theorem inst_isSome_iff {x : InstanceId} : (a.inst x).isSome ↔ x.index < a.instanceCount := by
  simp [Arena.inst, Arena.instanceCount]

/-- **An instance and itself.** In a well-formed arena, an instance has the
same content as itself within `n` levels exactly when it exists and every
path of references from it is shorter than `n`. The induction is on the
budget: a path from the instance is a first reference and a path from its
target. -/
theorem sameContentWithin_self_iff (ha : a.WellFormed) :
    ∀ (n : Nat) (x : InstanceId), sameContentWithin a a n x x = true ↔ (a.inst x).isSome ∧ ∀ m, a.RefPath x m → m < n
  | 0, x => by
    simp only [sameContentWithin_zero, Bool.false_eq_true, false_iff, not_and]
    intro _ hpaths
    exact absurd (hpaths 0 (.nil x)) (Nat.lt_irrefl 0)
  | n + 1, x => by
    rw [sameContentWithin_succ]
    constructor
    · rintro ⟨ix, ix', cx, cx', hx, hx', -, -, -, hslots⟩
      have hix : ix = ix' := Option.some.inj (hx.symm.trans hx')
      subst hix
      refine ⟨by simp [hx], fun m hp => ?_⟩
      cases hp with
      | nil => omega
      | cons hr hy hp' =>
        -- the first reference of the path leaves through some slot of `x`
        rw [hx, Option.some.injEq] at hr
        subst hr
        obtain ⟨s, hs, hys⟩ := InstanceRecord.mem_references_iff_slot.1 hy
        have hrel := hslots s hs
        rw [hys, Option.rel_some_some] at hrel
        have := ((sameContentWithin_self_iff ha n _).1 hrel).2 _ hp'
        omega
    · rintro ⟨hx, hpaths⟩
      obtain ⟨ix, hix⟩ := Option.isSome_iff_exists.1 hx
      obtain ⟨cx, hcx, -⟩ := ha.linked ix (Array.mem_of_getElem? hix)
      refine ⟨ix, ix, cx, cx, hix, hix, hcx, hcx, SameFields.refl cx ix, fun s hs => ?_⟩
      cases hys : ix.extRef s with
      | none => exact .none
      | some y =>
        refine .some ((sameContentWithin_self_iff ha n y).2 ⟨?_, fun m hp => ?_⟩)
        · -- a reference of a well-formed arena names one of its instances
          obtain ⟨hlt, hget⟩ := Array.getElem?_eq_some_iff.1 hix
          have hy := (ha.refs x.index hlt s y (by rw [hget]; exact hys)).1
          exact inst_isSome_iff.2 hy
        · have := hpaths (m + 1) (.cons hix (InstanceRecord.mem_references_iff_slot.2 ⟨s, hs, hys⟩) hp)
          omega

/-- Around a cycle of `k` references there are paths of every multiple of
`k` references. -/
theorem Chain.refPath_repeat {y : InstanceId} {k : Nat} (hc : a.Chain y y k) : ∀ j, a.RefPath y (j * k)
  | 0 => by simpa using RefPath.nil y
  | j + 1 => by
    rw [Nat.succ_mul, Nat.add_comm]
    exact hc.refPath_append (Chain.refPath_repeat hc j)

/-- An instance on a cycle, or leading to one, does not have the same
content as itself: the comparison runs out of levels around the cycle. -/
theorem sameContent_self_of_cycle (ha : a.WellFormed) {x y : InstanceId} {n : Nat} (hchain : a.Chain x y n)
    (hcyc : a.OnCycle y) : sameContent a x a x = false := by
  obtain ⟨k, hk⟩ := hcyc
  have hp := hchain.refPath_append (hk.refPath_repeat (maxReferenceDepth + 1))
  cases h : sameContent a x a x with
  | false => rfl
  | true =>
    have := ((sameContentWithin_self_iff ha _ x).1 h).2 _ hp
    simp only [maxReferenceDepth] at this
    omega

/-- **Same content is a partial equivalence.** On arenas satisfying the
invariant that every arena the operations build satisfies, same content is
symmetric and transitive. In a well-formed arena, an instance has the same
content as itself exactly when it exists and no path of references from it
has more than `maxReferenceDepth` references; so never when it lies on a
cycle of references or leads to one. -/
theorem sameContent_partialEquivalence :
    (∀ (A B : Arena) (x y : InstanceId), A.Inv → B.Inv → sameContent A x B y = sameContent B y A x) ∧
    (∀ (A B C : Arena) (x y z : InstanceId), A.Inv → B.Inv →
      sameContent A x B y = true → sameContent B y C z = true → sameContent A x C z = true) ∧
    (∀ (A : Arena) (x : InstanceId), A.WellFormed →
      (sameContent A x A x = true ↔ (A.inst x).isSome ∧ ∀ n, A.RefPath x n → n ≤ maxReferenceDepth)) ∧
    (∀ (A : Arena) (x y : InstanceId) (n : Nat), A.WellFormed → A.Chain x y n → A.OnCycle y →
      sameContent A x A x = false) := by
  refine ⟨fun A B x y hA hB => sameContentWithin_comm hA hB _ x y,
    fun A B C x y z hA hB => sameContentWithin_trans hA hB _ x y z, fun A x hA => ?_,
    fun A x y n hA hchain hcyc => sameContent_self_of_cycle hA hchain hcyc⟩
  rw [sameContent, sameContentWithin_self_iff hA]
  simp only [Nat.lt_succ_iff]

end Arena

end CimBroker.Stream

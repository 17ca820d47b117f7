import CimBroker.Stream.Decode
import CimBroker.Proofs.Stream.RecordLayout

/-!
# What the decoder does with one record

The decoder reads records one at a time; this module says, for each step,
what a successful step returns and how a step can fail, so that the proofs
about a whole stream never unfold the steps again.

The one step with a loop inside is the resolution of an instance's
reference slots (`resolveSlots`), a fold that reads and writes the record
it walks. It is the same as resolving every token on its own
(`resolveToken`) and then writing all slots at once: a token resolves to
zero (empty) or to the position it names plus one, the record gets those
values shifted by the arena's instance count (`shiftToken`), and every
position named is claimed (`claim`). In particular a slot is never written
out of range, since the slot written is always the one just read.

## Main results

* `resolveSlots_eq` — resolving the slots of an instance is a map over its
  tokens.
* `resolveToken_eq_ok`, `resolveToken_eq_error` — what one token resolves to.
* `ClassRecord.ofRecord_eq_ok`, `InstanceRecord.ofRecord_eq_ok` — what the
  record checks accept.
-/

namespace CimBroker.Stream

/-! ## Resolving one token -/

/-- What the token of a reference slot of the instance at `position`
resolves to: zero for an empty slot, else the position that the reference
table maps it to, plus one, which must lie before `position`. -/
def resolveToken (refs : Array Entry) (position token : Nat) : Except StreamError Nat :=
  if token = 0 then .ok 0
  else
    match referenceTarget refs token with
    | none => .error (.unresolvedReference token)
    | some target =>
      if target < position then .ok (target + 1) else .error (.forwardReference position target)

/-- A token of the stream as the arena holds it, `base` instances after the
stream's first; zero stays zero. -/
def shiftToken (base t : Nat) : Nat := if t = 0 then 0 else t + base

/-- The marks after the positions named by `tokens` (each minus one) are
claimed; zero names none. -/
def claim {n : Nat} (marks : Vector Nat n) (tokens : List Nat) : Vector Nat n :=
  tokens.foldl (fun m t => if t = 0 then m else m.setIfInBounds (t - 1) 0) marks

@[simp] theorem shiftToken_zero_base (t : Nat) : shiftToken 0 t = t := by
  by_cases h : t = 0 <;> simp [shiftToken, h]

@[simp] theorem shiftToken_zero (base : Nat) : shiftToken base 0 = 0 := by simp [shiftToken]

/-- A mark is claimed exactly when a token names its position. The induction
is on the tokens still to apply. -/
theorem getElem_claim {n : Nat} (tokens : List Nat) (marks : Vector Nat n) (p : Nat) (hp : p < n) :
    (claim marks tokens)[p] = if p + 1 ∈ tokens then 0 else marks[p] := by
  induction tokens generalizing marks with
  | nil => simp [claim]
  | cons t ts ih =>
    have hstep : (if t = 0 then marks else marks.setIfInBounds (t - 1) 0)[p] = if t = p + 1 then 0 else marks[p] := by
      by_cases h0 : t = 0
      · simp [h0]
      · simp only [h0, if_false, Vector.getElem_setIfInBounds hp]
        by_cases htp : t = p + 1
        · simp [htp]
        · rw [if_neg (by omega), if_neg htp]
    simp only [claim, List.foldl_cons] at ih ⊢
    rw [ih, hstep]
    by_cases htp : t = p + 1
    · simp [htp]
    · simp [htp, Ne.symm htp]

theorem resolveToken_eq_ok {refs : Array Entry} {position token u : Nat} :
    resolveToken refs position token = .ok u ↔
      (token = 0 ∧ u = 0) ∨
        (token ≠ 0 ∧ ∃ target, referenceTarget refs token = some target ∧ target < position ∧ u = target + 1) := by
  unfold resolveToken
  by_cases h0 : token = 0
  · simp [h0, eq_comm]
  · cases ht : referenceTarget refs token with
    | none => simp [h0]
    | some target => by_cases hlt : target < position <;> simp [h0, hlt, eq_comm]

/-- A token fails to resolve when the table has no entry for it or its entry
does not lie before the instance. -/
theorem resolveToken_eq_error {refs : Array Entry} {position token : Nat} {e : StreamError}
    (h : resolveToken refs position token = .error e) :
    e = .unresolvedReference token ∨ ∃ target, e = .forwardReference position target := by
  unfold resolveToken at h
  split at h
  · cases h
  · split at h
    · cases h
      exact .inl rfl
    · split at h
      · cases h
      · cases h
        exact .inr ⟨_, rfl⟩

/-- A resolved token is zero or names a position before the instance's. -/
theorem le_of_resolveToken_eq_ok {refs : Array Entry} {position token u : Nat}
    (h : resolveToken refs position token = .ok u) : u ≤ position := by
  rcases resolveToken_eq_ok.1 h with ⟨-, rfl⟩ | ⟨-, target, -, hlt, rfl⟩ <;> omega

/-! ## Resolving the slots of an instance -/

private theorem set_eq_setIfInBounds {α : Type} {n : Nat} (v : Vector α n) (i : Nat) (x : α) (h : i < n) :
    v.set i x h = v.setIfInBounds i x := by
  apply Vector.ext
  intro j hj
  simp [Vector.getElem_set, Vector.getElem_setIfInBounds]

section Slots

variable {n : Nat} (refs : Array Entry) (base position : Nat) (hpos : position < n)

/-- The fold over the slots from `done.length` on, with the slots before
them already written. The induction is on the slots still to go; the
invariant is that the record's tokens are the written ones followed by the
unread ones, so the slot written is in range. -/
private theorem foldlM_resolveSlot (ts done : List Nat) (i : InstanceRecord) (marks : Vector Nat n)
    (htok : i.record.tokens = done ++ ts) :
    (ts.zipIdx done.length).foldlM (resolveSlot refs base position hpos) (i, marks) =
      (ts.mapM (resolveToken refs position)).map fun us =>
        ({ i with record := { i.record with tokens := done ++ us.map (shiftToken base) } }, claim marks us) := by
  induction ts generalizing done i marks with
  | nil =>
    have hi : { i with record := { i.record with tokens := done } } = i := by
      rw [← List.append_nil done, ← htok]
    simp [hi, claim]
  | cons t ts ih =>
    rw [List.zipIdx_cons, List.foldlM_cons, List.mapM_cons]
    by_cases ht : t = 0
    · subst ht
      have hstep : resolveSlot refs base position hpos (i, marks) (0, done.length) = .ok (i, marks) := by
        simp [resolveSlot]
      have hrest := ih (done ++ [0]) i marks (by simp [htok])
      simp only [List.length_append, List.length_singleton] at hrest
      rw [hstep, Except.ok_bind, hrest]
      cases ts.mapM (resolveToken refs position) <;> simp [resolveToken, claim]
    · cases htarget : referenceTarget refs t with
      | none => simp [resolveSlot, resolveToken, ht, htarget]
      | some target =>
        by_cases hlt : target < position
        · -- the slot is written with the target's handle, `base` past its position
          let i' : InstanceRecord :=
            { i with record := { i.record with tokens := done ++ shiftToken base (target + 1) :: ts } }
          have hset : i.setExtRef done.length (some ⟨base + target⟩) = .ok i' := by
            have htoken : (⟨base + target⟩ : InstanceId).token = shiftToken base (target + 1) := by
              simp [InstanceId.token, shiftToken]
              omega
            simp [i', InstanceRecord.setExtRef, Record.setToken, htok, List.set_append_right, htoken]
          have hstep : resolveSlot refs base position hpos (i, marks) (t, done.length) =
              .ok (i', marks.setIfInBounds target 0) := by
            simp [resolveSlot, ht, htarget, hlt, hset, set_eq_setIfInBounds]
          have hrest := ih (done ++ [shiftToken base (target + 1)]) i' (marks.setIfInBounds target 0)
            (by simp [i'])
          simp only [List.length_append, List.length_singleton] at hrest
          rw [hstep, Except.ok_bind, hrest]
          cases ts.mapM (resolveToken refs position) <;> simp [i', resolveToken, ht, htarget, hlt, claim]
        · simp [resolveSlot, resolveToken, ht, htarget, hlt]

/-- **Resolving the slots of an instance.** It succeeds exactly when every
token resolves; the record then holds the resolved tokens shifted by
`base`, and the positions they name are claimed. -/
theorem resolveSlots_eq (i : InstanceRecord) (marks : Vector Nat n) :
    resolveSlots refs base position hpos i marks =
      (i.record.tokens.mapM (resolveToken refs position)).map fun us =>
        ({ i with record := { i.record with tokens := us.map (shiftToken base) } }, claim marks us) := by
  have h := foldlM_resolveSlot refs base position hpos i.record.tokens [] i marks rfl
  rw [resolveSlots]
  simpa using h

end Slots

/-! ## Checking a record -/

/-- A record is accepted as a class when it has no reference slots and every
name slot holds UTF-8 text. -/
theorem ClassRecord.ofRecord_eq_ok {r : Record} {c : ClassRecord} :
    ClassRecord.ofRecord r = .ok c ↔
      c = ⟨r⟩ ∧ r.extRefCount = 0 ∧ ∀ slot < 2 + r.fieldCount, (r.text slot).isSome := by
  unfold ClassRecord.ofRecord
  by_cases href : r.extRefCount = 0
  · cases hfind : (List.range (2 + r.fieldCount)).find? (fun slot => (r.text slot).isNone) with
    | none =>
      rw [List.find?_eq_none] at hfind
      simp only [href, ne_eq, not_true_eq_false, if_false, Except.ok.injEq, true_and]
      constructor
      · rintro rfl
        refine ⟨rfl, fun slot hslot => ?_⟩
        have := hfind slot (List.mem_range.2 hslot)
        simpa [Option.isSome_iff_ne_none] using this
      · exact fun h => h.1.symm
    | some slot =>
      obtain ⟨hnone, hmem⟩ := List.find?_some hfind, List.mem_of_find?_eq_some hfind
      simp only [href, ne_eq, not_true_eq_false, if_false, reduceCtorEq, false_iff, not_and, true_and]
      intro _ hall
      have := hall slot (List.mem_range.1 hmem)
      simp_all
  · simp [href]

/-- A record is accepted as an instance of a class when it has one value per
property of the class and its host name and namespace, where present, are
UTF-8 text. -/
theorem InstanceRecord.ofRecord_eq_ok {r : Record} {cls : ClassId} {c : ClassRecord} {i : InstanceRecord} :
    InstanceRecord.ofRecord r cls c = .ok i ↔
      i = ⟨r, cls⟩ ∧ r.fieldCount = c.propertyCount ∧
        ((r.string 0).isSome → (r.text 0).isSome) ∧ ((r.string 1).isSome → (r.text 1).isSome) := by
  unfold InstanceRecord.ofRecord
  split_ifs with hcount h0 h1
  · simp [hcount]
  · simp only [false_iff, not_and]
    intro _ _ h0'
    simp_all [Option.isSome_iff_ne_none]
  · simp only [false_iff, not_and]
    intro _ _ _ h1'
    simp_all [Option.isSome_iff_ne_none]
  · simp only [Except.ok.injEq]
    constructor
    · rintro rfl
      refine ⟨rfl, by simpa using hcount, fun hs => ?_, fun hs => ?_⟩ <;>
        simp_all [Option.isSome_iff_ne_none]
    · rintro ⟨rfl, -⟩
      rfl

/-- An instance check gives the record its class handle, and nothing else
depends on the handle. -/
theorem InstanceRecord.ofRecord_cls (r : Record) (cls cls' : ClassId) (c : ClassRecord) :
    InstanceRecord.ofRecord r cls c = (InstanceRecord.ofRecord r cls' c).map ({ · with cls := cls }) := by
  unfold InstanceRecord.ofRecord
  split_ifs <;> rfl

end CimBroker.Stream

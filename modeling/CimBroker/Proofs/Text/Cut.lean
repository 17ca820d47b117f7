/-!
# Cutting a text at a character

Texts are cut at the first occurrence of a separator by `takeWhile` and
`dropWhile` with the test `(· ≠ c)`: the header readers cut at quotes and
colons, the locator reader at colons and brackets. This module says where
such a cut falls. On a list `pre ++ c :: after` with no `c` in `pre`, the
part kept is `pre` and the part dropped starts at that `c`; conversely a
`dropWhile` that stops somewhere stops at the first `c`, and one that stops
nowhere ran over a list without `c`.
-/

namespace CimBroker.Text

variable {c : Char}

theorem takeWhile_ne_append {pre : List Char} (after : List Char) (h : c ∉ pre) :
    (pre ++ c :: after).takeWhile (· ≠ c) = pre := by
  have hne : ∀ x ∈ pre, decide (x ≠ c) = true := fun x hx => decide_eq_true fun hxc => h (hxc ▸ hx)
  rw [List.takeWhile_append_of_pos hne, List.takeWhile_cons_of_neg (by simp), List.append_nil]

theorem dropWhile_ne_append {pre : List Char} (after : List Char) (h : c ∉ pre) :
    (pre ++ c :: after).dropWhile (· ≠ c) = c :: after := by
  have hne : ∀ x ∈ pre, decide (x ≠ c) = true := fun x hx => decide_eq_true fun hxc => h (hxc ▸ hx)
  rw [List.dropWhile_append_of_pos hne, List.dropWhile_cons_of_neg (by simp)]

theorem dropWhile_ne_eq_nil {l : List Char} : l.dropWhile (· ≠ c) = [] ↔ c ∉ l := by
  induction l with
  | nil => simp
  | cons x l ih =>
    by_cases hx : x = c
    · subst hx
      simp
    · rw [List.dropWhile_cons_of_pos (by simpa using hx), ih]
      simp [Ne.symm hx]

/-- Where `dropWhile` stops: at the first `c`, after a prefix without one. -/
theorem dropWhile_ne_eq_cons {l after : List Char} {x : Char} (h : l.dropWhile (· ≠ c) = x :: after) :
    ∃ pre, l = pre ++ c :: after ∧ c ∉ pre ∧ x = c := by
  induction l with
  | nil => simp at h
  | cons y l ih =>
    by_cases hy : y = c
    · subst hy
      rw [List.dropWhile_cons_of_neg (by simp)] at h
      obtain ⟨rfl, rfl⟩ := List.cons.inj h
      exact ⟨[], rfl, by simp, rfl⟩
    · rw [List.dropWhile_cons_of_pos (by simpa using hy)] at h
      obtain ⟨pre, rfl, hpre, rfl⟩ := ih h
      exact ⟨y :: pre, rfl, by simp [Ne.symm hy, hpre], rfl⟩

end CimBroker.Text

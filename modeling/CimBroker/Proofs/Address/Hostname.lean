import Mathlib.Data.List.TakeWhile
import CimBroker.Proofs.Address.Families

/-!
# The grammar of host names

`Hostname.isValid` scans a name in one pass: at the start of a label it
wants a letter, digit or underscore, inside a label it takes letters,
digits, hyphens and underscores, a dot starts the next label, and at the end
of the text the label just read must not be all digits. This module states
the grammar the scan decides, on the characters of the name: one or more
labels joined by dots, each a letter, digit or underscore followed by
letters, digits, hyphens and underscores, the last one not all digits.

The scan's flag that the label is all digits is reset at each label start,
so it speaks of the last label only (`scanLabels_label`); a label ends at
the first character that is no label character, which must be a dot or the
end of the text.

## Main results

* `Hostname.scanLabels_labels` — a name written as labels is accepted.
* `Hostname.labels_of_scanLabels` — an accepted name is written as labels.
* `Hostname.isValid_iff_labels` — the scan accepts exactly the grammar.
-/

namespace CimBroker.Address.Hostname

/-- A label: a letter, digit or underscore, followed by letters, digits,
hyphens and underscores, all ASCII. -/
def IsLabel (l : List Char) : Prop :=
  ∃ c rest, l = c :: rest ∧ (c.isAlpha ∨ c.isDigit ∨ c = '_') ∧
    ∀ x ∈ rest, x.isAlpha ∨ x.isDigit ∨ x = '-' ∨ x = '_'

theorem isLabelStart_iff (c : Char) : isLabelStart c = true ↔ c.isAlpha ∨ c.isDigit ∨ c = '_' := by
  simp [isLabelStart, Char.isAlphanum, or_assoc]

theorem isLabelChar_iff (c : Char) : isLabelChar c = true ↔ c.isAlpha ∨ c.isDigit ∨ c = '-' ∨ c = '_' := by
  simp [isLabelChar, Char.isAlphanum, or_assoc]

theorem isLabel_iff {l : List Char} :
    IsLabel l ↔ ∃ c rest, l = c :: rest ∧ isLabelStart c = true ∧ ∀ x ∈ rest, isLabelChar x = true := by
  simp only [IsLabel, isLabelStart_iff, isLabelChar_iff]

/-! ## One label -/

/-- Inside a label the scan only updates its flag: the label read so far is
all digits. The induction is on the label's characters. -/
theorem scanLabels_body (rest : List Char) :
    ∀ (body : List Char), (∀ x ∈ body, isLabelChar x = true) → ∀ d : Bool,
      scanLabels (body ++ rest) false d = scanLabels rest false (d && body.all Char.isDigit)
  | [], _, d => by simp
  | x :: body, hbody, d => by
    have hx : isLabelChar x = true := hbody x List.mem_cons_self
    rw [List.cons_append, scanLabels, if_pos hx,
      scanLabels_body rest body (fun y hy => hbody y (List.mem_cons_of_mem x hy)), List.all_cons, Bool.and_assoc]

/-- A whole label, read from its start, leaves the flag saying whether it is
all digits, whatever the flag was before. -/
theorem scanLabels_label {l : List Char} (hl : IsLabel l) (rest : List Char) (d : Bool) :
    scanLabels (l ++ rest) true d = scanLabels rest false (l.all Char.isDigit) := by
  obtain ⟨c, body, rfl, hc, hbody⟩ := isLabel_iff.1 hl
  rw [List.cons_append, scanLabels, if_pos hc, scanLabels_body rest body hbody, List.all_cons]

/-! ## Names written as labels -/

/-- Labels joined by dots: each label but the last followed by a dot, then
the last. -/
theorem intercalate_dot (init : List (List Char)) (last : List Char) :
    ['.'].intercalate (init ++ [last]) = init.flatMap (· ++ ['.']) ++ last := by
  induction init with
  | nil => simp
  | cons l init ih =>
    obtain ⟨l', ls, hls⟩ := List.exists_cons_of_ne_nil (by simp : init ++ [last] ≠ [])
    rw [List.cons_append, hls, List.intercalate_cons_cons, ← hls, ih]
    simp

/-- **Labels are accepted.** Labels joined by dots, the last not all digits,
are accepted from a label start. The induction is on the labels before the
last. -/
theorem scanLabels_labels {last : List Char} (hlast : IsLabel last) (hdigits : ¬ ∀ x ∈ last, x.isDigit = true) :
    ∀ (init : List (List Char)), (∀ l ∈ init, IsLabel l) → ∀ d : Bool,
      scanLabels (init.flatMap (· ++ ['.']) ++ last) true d = true
  | [], _, d => by
    have hall : last.all Char.isDigit = false := by simpa using hdigits
    rw [List.flatMap_nil, List.nil_append, ← List.append_nil last, scanLabels_label hlast, hall]
    rfl
  | l :: init, hinit, d => by
    rw [List.flatMap_cons, List.append_assoc, List.append_assoc, List.singleton_append,
      scanLabels_label (hinit l List.mem_cons_self), scanLabels, if_neg (by simp), if_pos rfl]
    exact scanLabels_labels hlast hdigits init (fun l' hl' => hinit l' (List.mem_cons_of_mem l hl')) true

/-- **Accepted names are labels.** A text accepted from a label start is
labels joined by dots, the last not all digits. The recursion takes the
first label off the front: it runs to the first character that is no label
character, which must be a dot, after which the scan starts again. -/
theorem labels_of_scanLabels : ∀ (cs : List Char) (d : Bool), scanLabels cs true d = true →
    ∃ (init : List (List Char)) (last : List Char), cs = init.flatMap (· ++ ['.']) ++ last ∧
      (∀ l ∈ init, IsLabel l) ∧ IsLabel last ∧ ¬ ∀ x ∈ last, x.isDigit = true
  | [], d, h => by simp [scanLabels] at h
  | c :: r, d, h => by
    rw [scanLabels] at h
    split at h
    case isFalse => cases h
    rename_i hc
    -- the first label is `c` and the label characters after it, up to the first other character
    obtain ⟨body, after, rfl, hbody, hstop⟩ : ∃ body after, r = body ++ after ∧
        (∀ x ∈ body, isLabelChar x = true) ∧ ∀ x ∈ after.head?, isLabelChar x = false := by
      refine ⟨_, _, List.takeWhile_append_dropWhile.symm, fun x hx => List.mem_takeWhile_imp hx, ?_⟩
      intro x hx
      have := List.head?_dropWhile_not isLabelChar r
      rw [hx] at this
      exact this
    have hlabel : IsLabel (c :: body) := isLabel_iff.2 ⟨c, body, rfl, hc, hbody⟩
    rw [scanLabels_body after body hbody] at h
    cases after with
    | nil =>
      -- the text ends the label, which is the last one
      refine ⟨[], c :: body, by simp, by simp, hlabel, fun hall => ?_⟩
      -- an all-digit last label is refused at the end of the text
      have hdigits : (c :: body).all Char.isDigit = true := List.all_eq_true.2 hall
      rw [List.all_cons] at hdigits
      rw [hdigits, scanLabels] at h
      exact absurd h (by decide)
    | cons x after =>
      -- the label ends at a dot, after which the scan starts again
      have hx : isLabelChar x = false := hstop x rfl
      rw [scanLabels, if_neg (by simp [hx])] at h
      split at h
      case isFalse => cases h
      rename_i hdot
      subst hdot
      obtain ⟨init, last, rfl, hinit, hlast, hdigits⟩ := labels_of_scanLabels after true h
      refine ⟨(c :: body) :: init, last, by simp, ?_, hlast, hdigits⟩
      intro l hl
      rcases List.mem_cons.1 hl with rfl | hl
      · exact hlabel
      · exact hinit l hl
termination_by cs => cs.length

/-- **The grammar of host names.** A text is a valid host name exactly when
it is one or more labels joined by dots, each label a letter, digit or
underscore followed by letters, digits, hyphens and underscores, and the
last label not all digits. -/
theorem isValid_iff_labels (s : String) :
    isValid s = true ↔ ∃ (init : List (List Char)) (last : List Char),
      s.toList = ['.'].intercalate (init ++ [last]) ∧ (∀ l ∈ init, IsLabel l) ∧ IsLabel last ∧
        ¬ ∀ x ∈ last, x.isDigit = true := by
  simp only [intercalate_dot]
  constructor
  · exact labels_of_scanLabels s.toList true
  · rintro ⟨init, last, hs, hinit, hlast, hdigits⟩
    rw [isValid, hs]
    exact scanLabels_labels hlast hdigits init hinit true

end CimBroker.Address.Hostname

import CimBroker.Files.Store
import CimBroker.Proofs.Files.Paths

/-!
# Files at the root

A path text `/name`, for a name that is one component, names an entry whose
parent is the root: looking it up walks no directory and follows no link.
So a file can be created there exactly when nothing is at `[name]`, and a
file there reads back its content.

The conditions on the text are those every lookup checks first (no NUL
character, fewer than `maxPathBytes` bytes) and those that make the name one
component (`RootName`).
-/

namespace CimBroker.Files

/-- A name that makes `/name` a path of one component under the root, and a
text every lookup accepts. -/
structure RootName (name : String) : Prop where
  no_slash : '/' ∉ name.toList
  ne_empty : name ≠ ""
  ne_dot : name ≠ "."
  ne_dotdot : name ≠ ".."
  short : Store.tooLong name = false
  no_nul : Store.hasNul ("/" ++ name) = false
  fits : ("/" ++ name).utf8ByteSize < Store.maxPathBytes

theorem PathText.ofString_root {name : String} (hslash : '/' ∉ name.toList) (hne : name ≠ "") :
    PathText.ofString ("/" ++ name) = ⟨true, [name], false⟩ := by
  have hparts : slashParts ("/" ++ name) = ["", name] := by
    have h := slashParts_append_slash "" name
    rw [String.empty_append, slashParts_of_not_mem hslash, slashParts_of_not_mem (s := "") (by simp)] at h
    exact h
  -- the last character is the name's, not a slash
  have hend : ("/" ++ name).endsWith "/" = false := by
    cases hslashEnd : ("/" ++ name).endsWith "/" with
    | false => rfl
    | true =>
      obtain ⟨t, ht⟩ := endsWith_iff.1 hslashEnd
      obtain ⟨init, last, hsplit⟩ := (List.eq_nil_or_concat' name.toList).resolve_left (by simpa using hne)
      have heq : t ++ ['/'] = ('/' :: init) ++ [last] := by
        simpa [hsplit] using ht
      have hlast : '/' = last := by simpa using (List.append_inj' heq rfl).2
      have hmem : '/' ∈ name.toList := by simp [hsplit, ← hlast]
      exact absurd hmem hslash
  simp [PathText.ofString, hparts, hne, hend]

namespace Store

variable {st : Store} {name : String}

theorem get?_put_self {path : List String} (e : Entry) (hpath : path ≠ []) : (st.put path e).get? path = some e := by
  simp [get?, put, hpath]

theorem checkText_root (h : RootName name) : checkText ("/" ++ name) = .ok ⟨true, [name], false⟩ := by
  have hne : ("/" ++ name).isEmpty = false := by simp
  rw [checkText, if_neg (by simp [h.no_nul]), if_neg (by have := h.fits; omega), hne, if_neg (by simp),
    PathText.ofString_root h.no_slash h.ne_empty]

/-- The parent of `/name` is the root. -/
theorem parentOf_root (h : RootName name) (links : Nat) (dir : List String) :
    st.parentOf links dir ⟨true, [name], false⟩ = .ok ⟨([], .name name, links), Nat.le_refl _⟩ := by
  have hlast : Last.ofName name = .name name := by simp [Last.ofName, h.ne_dot, h.ne_dotdot]
  simp [parentOf, intoDir, hlast, Except.map]

/-- **Creating a file at the root** succeeds when nothing is there. -/
theorem createNew_root (h : RootName name) (hfree : st.get? [name] = none) (content : String) :
    st.createNew ("/" ++ name) content = .ok (st.put [name] (.file content)) := by
  simp [createNew, checkText_root h, parentOf_root h, h.short, hfree, bind, Except.bind]

/-- **A file at the root reads back its content.** -/
theorem readRegular_root (h : RootName name) {content : String} (hget : st.get? [name] = some (.file content)) :
    st.readRegular ("/" ++ name) = .ok content := by
  have hlocate : st.locate maxLinks false false [] ⟨true, [name], false⟩ = .ok [name] := by
    rw [locate, parentOf_root h]
    simp [h.short, hget]
  simp [readRegular, lookup, checkText_root h, hlocate, hget, bind, Except.bind]

end Store

end CimBroker.Files

import Mathlib.Data.String.Basic
import CimBroker.Files.Path

/-!
# Joining a name to a directory

Paths compare by components, and a component list is read from the parts of
a text between slashes, which `String.splitOn` finds by walking byte
positions. For a separator of one byte that walk splits the characters at
every slash (`slashParts_eq`), so the parts of a text are those of its
character list.

From there, joining a name to a directory adds exactly that name to the
directory's components (`components_join`), whatever the directory's text
looks like: empty, ending with a slash or not, relative or absolute. So the
parent of a joined path is the directory, and two names joined to one
directory give the same path only when they are the same name.
-/

open String in
/-- The separator walk of `String.splitOn` with the one-byte separator `/`,
started after the characters `l` with the current part `m` read and `r` left,
finishes the parts of the characters. The induction is on `r`. -/
theorem String.splitOnAux_slash (l m r : List Char) (acc : List String) :
    splitOnAux (ofList (l ++ m ++ r)) "/" ⟨utf8Len l⟩ ⟨utf8Len l + utf8Len m⟩ 0 acc =
      acc.reverse ++ (List.splitOnPPrepend (· == '/') r m.reverse).map ofList := by
  unfold splitOnAux
  simp only [List.append_assoc, atEnd_iff, rawEndPos_ofList, utf8Len_append, Pos.Raw.mk_le_mk,
    Nat.add_le_add_iff_left, (by omega : utf8Len m + utf8Len r ≤ utf8Len m ↔ utf8Len r = 0),
    utf8Len_eq_zero]
  split
  · subst r
    simpa using extract_of_valid l m []
  · obtain ⟨c, r, rfl⟩ := r.exists_cons_of_ne_nil ‹_›
    have hget : Pos.Raw.get (ofList (l ++ (m ++ c :: r))) ⟨utf8Len l + utf8Len m⟩ = c := by
      simpa [-ofList_append] using get_of_valid (l ++ m) (c :: r)
    have hnext : Pos.Raw.next (ofList (l ++ (m ++ c :: r))) ⟨utf8Len l + utf8Len m⟩ =
        ⟨utf8Len l + utf8Len m + c.utf8Size⟩ := by
      simpa [-ofList_append] using next_of_valid (l ++ m) c r
    have hsep : (0 : String.Pos.Raw).get "/" = '/' := by decide
    have hsepnext : (0 : String.Pos.Raw).next "/" = ⟨1⟩ := by decide
    rw [hget, hsep]
    split
    · -- a slash ends the current part, and the walk starts a new one after it
      rename_i hc
      have hc' : c = '/' := by simpa using hc
      subst hc'
      have hend : "/".rawEndPos ≤ ⟨1⟩ := by decide
      have hextract : Pos.Raw.extract (ofList (l ++ (m ++ '/' :: r))) ⟨utf8Len l⟩ ⟨utf8Len l + utf8Len m⟩ =
          ofList m := by
        simpa [-ofList_append] using extract_of_valid l m ('/' :: r)
      have hback : (⟨utf8Len l + utf8Len m + '/'.utf8Size⟩ : Pos.Raw).unoffsetBy ⟨1⟩ =
          ⟨utf8Len l + utf8Len m⟩ := by
        have hsz : '/'.utf8Size = 1 := by decide
        simp [Pos.Raw.unoffsetBy, hsz]
      simp only [hnext, hsepnext, if_pos hend, hback, hextract]
      simpa [Nat.add_assoc, List.splitOnPPrepend_cons_eq_if] using
        splitOnAux_slash (l ++ m ++ ['/']) [] r (ofList m :: acc)
    · rename_i hc
      have hstay : (⟨utf8Len l + utf8Len m⟩ : Pos.Raw).unoffsetBy 0 = ⟨utf8Len l + utf8Len m⟩ := by
        simp [Pos.Raw.unoffsetBy]
      rw [hstay, hnext]
      simpa [Nat.add_assoc, List.splitOnPPrepend_cons_eq_if, hc] using splitOnAux_slash l (m ++ [c]) r acc

namespace CimBroker.Files

/-! ## Parts between slashes -/

/-- The parts of a path text are those of its characters, split at every
slash. -/
theorem slashParts_eq (s : String) : slashParts s = (s.toList.splitOn '/').map String.ofList := by
  have h := String.splitOnAux_slash [] [] s.toList []
  simp only [List.nil_append, String.utf8Len_nil, Nat.add_zero, List.reverse_nil,
    List.splitOnPPrepend_nil_right, String.ofList_toList] at h
  rw [slashParts, String.splitOn, if_neg (by decide), List.splitOn_eq_splitOnP]
  exact h

theorem slashParts_ne_nil (s : String) : slashParts s ≠ [] := by
  simp [slashParts_eq, List.splitOn_ne_nil]

theorem slashParts_of_not_mem {s : String} (h : '/' ∉ s.toList) : slashParts s = [s] := by
  rw [slashParts_eq, List.splitOn_eq_singleton h]
  simp

theorem slashParts_append_slash (a b : String) : slashParts (a ++ "/" ++ b) = slashParts a ++ slashParts b := by
  have h : (a.toList ++ '/' :: b.toList).splitOn '/' = a.toList.splitOn '/' ++ b.toList.splitOn '/' :=
    List.splitOn_append_cons_of_beq a.toList b.toList (by decide)
  simp only [slashParts_eq, String.toList_append]
  simp [h]

theorem endsWith_iff {s pat : String} : s.endsWith pat = true ↔ pat.toList <:+ s.toList := by
  simp only [String.endsWith, String.Slice.endsWith_string_iff, String.copy_toSlice]

/-- Extending a text that is not empty keeps whether it starts at the root. -/
theorem startsWith_slash_append {a b : String} (ha : a ≠ "") :
    (a ++ b).startsWith "/" = a.startsWith "/" := by
  obtain ⟨c, cs, hc⟩ := List.exists_cons_of_ne_nil (by simpa using ha : a.toList ≠ [])
  apply Bool.eq_iff_iff.2
  simp [hc]

/-! ## Components of a joined path -/

/-- **Joining adds one component.** A name that is not empty, not `.` or
`..` and holds no slash, joined to any directory, is one more component
after the directory's. -/
theorem components_join {dir name : String} (hname : '/' ∉ name.toList) (hne : name ≠ "") (hdot : name ≠ ".")
    (hdotdot : name ≠ "..") : components (join dir name) = components dir ++ [.name name] := by
  have hnamed : [name].filterMap (fun p => if p = "" ∨ p = "." then none
      else if p = ".." then some Component.up else some (.name p)) = [.name name] := by
    simp [hne, hdot, hdotdot]
  unfold join
  split
  · -- the empty directory has no components
    rename_i hempty
    have hdir : dir = "" := by simpa using hempty
    subst hdir
    have hstart : name.startsWith "/" = false := by
      simp only [String.startsWith_string_eq_false_iff]
      intro hpre
      exact hname (hpre.subset (by simp))
    simp [components, slashParts_of_not_mem hname, slashParts_of_not_mem (s := "") (by simp), hstart,
      hne, hdot, hdotdot]
  · rename_i hempty
    have hne' : dir ≠ "" := by simpa using hempty
    split
    · -- the directory's last part is empty, and the name takes its place
      rename_i hslash
      obtain ⟨d, hd⟩ := endsWith_iff.1 hslash
      have hdir : dir = String.ofList d ++ "/" ++ "" := by
        apply String.toList_inj.1
        simp [← hd]
      have hjoin : dir ++ name = String.ofList d ++ "/" ++ name := by
        rw [hdir]
        simp
      have hsep : String.ofList d ++ "/" ≠ "" := by
        simp [← String.toList_inj]
      rw [hjoin]
      conv_rhs => rw [hdir]
      simp only [components, slashParts_append_slash, slashParts_of_not_mem hname,
        slashParts_of_not_mem (s := "") (by simp), startsWith_slash_append hsep,
        List.head?_append_of_ne_nil _ (slashParts_ne_nil _), List.filterMap_append, hnamed]
      simp
    · have hstart : (dir ++ "/" ++ name).startsWith "/" = dir.startsWith "/" := by
        rw [String.append_assoc]
        exact startsWith_slash_append hne'
      simp only [components, hstart, slashParts_append_slash, slashParts_of_not_mem hname,
        List.head?_append_of_ne_nil _ (slashParts_ne_nil dir), List.filterMap_append, hnamed, List.append_assoc]

section Join

variable {dir name : String}

/-- The parent of a joined path is its directory. -/
theorem parentComponents_join (hname : '/' ∉ name.toList) (hne : name ≠ "") (hdot : name ≠ ".")
    (hdotdot : name ≠ "..") : parentComponents (join dir name) = some (components dir) := by
  simp [parentComponents, components_join hname hne hdot hdotdot]

/-- A joined path lies directly in every directory that is its directory as
a path. -/
theorem parentIs_join {dir' : String} (hname : '/' ∉ name.toList) (hne : name ≠ "") (hdot : name ≠ ".")
    (hdotdot : name ≠ "..") (hsame : samePath dir' dir = true) : parentIs (join dir name) dir' = true := by
  simp only [samePath, beq_iff_eq] at hsame
  simp [parentIs, parentComponents_join hname hne hdot hdotdot, hsame]

/-- Two names joined to one directory give one path only when they are one
name. -/
theorem eq_of_samePath_join {name' : String} (hname : '/' ∉ name.toList) (hne : name ≠ "") (hdot : name ≠ ".")
    (hdotdot : name ≠ "..") (hname' : '/' ∉ name'.toList) (hne' : name' ≠ "") (hdot' : name' ≠ ".")
    (hdotdot' : name' ≠ "..") (hsame : samePath (join dir name) (join dir name') = true) : name = name' := by
  simp only [samePath, beq_iff_eq, components_join hname hne hdot hdotdot,
    components_join hname' hne' hdot' hdotdot', List.append_cancel_left_eq, List.cons.injEq,
    Component.name.injEq, and_true] at hsame
  exact hsame

/-- A joined path holds the directory's characters, a slash and the name's. -/
theorem mem_join {x : Char} (h : x ∈ (join dir name).toList) :
    x ∈ dir.toList ∨ x = '/' ∨ x ∈ name.toList := by
  unfold join at h
  split at h
  · exact Or.inr (Or.inr h)
  split at h
  · simp only [String.toList_append, List.mem_append] at h
    exact h.imp_right Or.inr
  · simp only [String.toList_append, List.mem_append] at h
    rcases h with (h | h) | h
    · exact Or.inl h
    · exact Or.inr (Or.inl (by simpa using h))
    · exact Or.inr (Or.inr h)

theorem join_ne_empty (hne : name ≠ "") : join dir name ≠ "" := by
  unfold join
  split
  · exact hne
  rename_i hdir
  have hdir' : dir.toList ≠ [] := by simpa using hdir
  split
  all_goals
    intro heq
    have hnil := congrArg String.toList heq
    simp only [String.toList_append, String.toList_empty, List.append_eq_nil_iff] at hnil
    simp_all

end Join

end CimBroker.Files

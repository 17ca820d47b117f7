import CimBroker.Proofs.Auth.Credential

/-!
# Challenges read back as written

`Challenge.parse` skips the blanks at the start of a header, takes the
scheme up to the first space, and the realm between the first two double
quotes after it; `Challenge.toHeaderValue` writes `scheme realm="realm"`.

The challenges that reading returns are exactly those that read back as
written (`Challenge.WellFormed`): a scheme that is not empty, has no space
and does not start with a blank, and a realm that is not empty and has no
double quote. A tab inside the scheme, or a space inside the realm, is
kept.

## Main results

* `Challenge.parse_eq_ok_iff` — what a header that reads as a given
  challenge looks like once its leading blanks are skipped.
* `Challenge.toHeaderValue_roundTrip` — writing a challenge and reading it
  gives it back exactly when it is well formed, every challenge read is
  well formed, and so writing what was read and reading it again gives the
  same answer.
-/

namespace CimBroker.Auth

open Text

/-! ## Texts that survive trimming -/

theorem dropWhile_isBlank_of_head {l : List Char} (h : ∀ x ∈ l.head?, isBlank x = false) :
    l.dropWhile isBlank = l := by
  cases l with
  | nil => rfl
  | cons x xs => exact List.dropWhile_cons_of_neg (by simpa using h)

/-- A text that does not start with a blank is its own `trimStart`. -/
theorem trimStart_of_head {s : String} (h : ∀ x ∈ s.toList.head?, isBlank x = false) : trimStart s = s := by
  rw [trimStart, dropWhile_isBlank_of_head h, String.ofList_toList]

/-- What `trimStart` leaves does not start with a blank. -/
theorem head_trimStart (s : String) : ∀ x ∈ (trimStart s).toList.head?, isBlank x = false := by
  intro x hx
  rw [trimStart, String.toList_ofList] at hx
  have := List.head?_dropWhile_not isBlank s.toList
  rw [hx] at this
  exact this

/-! ## Well-formed challenges -/

namespace Challenge

/-- A challenge that reads back as written: its scheme is not empty, has no
space and does not start with a blank; its realm is not empty and has no
double quote. -/
structure WellFormed (c : Challenge) : Prop where
  scheme_ne : c.scheme ≠ ""
  space_not_mem : ' ' ∉ c.scheme.toList
  head_not_blank : ∀ x ∈ c.scheme.toList.head?, isBlank x = false
  realm_ne : c.realm ≠ ""
  quote_not_mem : '"' ∉ c.realm.toList

/-- **Reading a challenge.** A header reads as challenge `c` exactly when
`c` is well formed and, past its leading blanks, the header is `c`'s scheme,
a space, text without a double quote, and `c`'s realm between double
quotes, followed by anything. -/
theorem parse_eq_ok_iff {header : String} {c : Challenge} :
    parse header = .ok c ↔ c.WellFormed ∧ ∃ junk tail, '"' ∉ junk ∧
      (trimStart header).toList = c.scheme.toList ++ ' ' :: (junk ++ '"' :: (c.realm.toList ++ '"' :: tail)) := by
  constructor
  · intro h
    unfold parse at h
    dsimp only at h
    cases hd : (trimStart header).toList.dropWhile (· ≠ ' ') with
    | nil =>
      rw [hd] at h
      cases h
    | cons sp rest =>
      rw [hd] at h
      dsimp only at h
      -- the scheme runs to the first space
      obtain ⟨scheme, htrim, hscheme, -⟩ := dropWhile_ne_eq_cons hd
      rw [htrim, takeWhile_ne_append _ hscheme] at h
      split at h
      · cases h
      rename_i hne
      split at h
      · cases h
      rename_i realm hq
      split at h
      · cases h
      rename_i hne'
      cases h
      obtain ⟨junk, tail, rfl, hjunk, hrealm⟩ := quotedContent_eq_some_iff.1 hq
      have hne : scheme ≠ [] := by simpa using hne
      -- the scheme starts where the header's first character past its blanks stands
      have hhead : ∀ x ∈ scheme.head?, isBlank x = false := by
        intro x hx
        apply head_trimStart header x
        rw [htrim, List.head?_append, hx]
        rfl
      refine ⟨⟨by simpa using hne, by simpa using hscheme, by simpa using hhead, by simpa using hne', by simpa using hrealm⟩,
        junk, tail, hjunk, by simpa using htrim⟩
  · rintro ⟨hc, junk, tail, hjunk, htrim⟩
    have hquoted : quotedContent (junk ++ '"' :: (c.realm.toList ++ '"' :: tail)) = some c.realm.toList :=
      quotedContent_eq_some_iff.2 ⟨junk, tail, rfl, hjunk, hc.quote_not_mem⟩
    have hscheme : c.scheme.toList.isEmpty = false := by simpa using hc.scheme_ne
    have hrealm : c.realm.toList.isEmpty = false := by simpa using hc.realm_ne
    simp only [parse, htrim, dropWhile_ne_append _ hc.space_not_mem, takeWhile_ne_append _ hc.space_not_mem,
      hscheme, hquoted, hrealm, Bool.false_eq_true, if_false, String.ofList_toList]

/-- Every challenge read is well formed. -/
theorem wellFormed_of_parse {header : String} {c : Challenge} (h : parse header = .ok c) : c.WellFormed :=
  (parse_eq_ok_iff.1 h).1

theorem toList_toHeaderValue (c : Challenge) :
    c.toHeaderValue.toList = c.scheme.toList ++ ' ' :: ("realm=".toList ++ '"' :: (c.realm.toList ++ ['"'])) := by
  simp [toHeaderValue]

/-- A well-formed challenge reads back as written. -/
theorem parse_toHeaderValue_of_wellFormed {c : Challenge} (hc : c.WellFormed) : parse c.toHeaderValue = .ok c := by
  have hne : c.scheme.toList ≠ [] := by simpa using hc.scheme_ne
  -- the header starts with the scheme, so no blank is skipped
  have hstart : trimStart c.toHeaderValue = c.toHeaderValue := by
    apply trimStart_of_head
    rw [toList_toHeaderValue, List.head?_append]
    intro x hx
    obtain ⟨y, ys, hy⟩ := List.exists_cons_of_ne_nil hne
    exact hc.head_not_blank x (by simpa [hy] using hx)
  exact parse_eq_ok_iff.2 ⟨hc, "realm=".toList, [], by decide, by rw [hstart, toList_toHeaderValue]⟩

/-- **Challenge round trip.** Writing a challenge and reading it back gives
the challenge exactly when it is well formed; every challenge read is well
formed; so for every header that reads, writing what was read and reading
it again gives the same challenge. -/
theorem toHeaderValue_roundTrip :
    (∀ c : Challenge, parse c.toHeaderValue = .ok c ↔ c.WellFormed) ∧
    (∀ (header : String) (c : Challenge), parse header = .ok c → c.WellFormed) ∧
    (∀ (header : String) (c : Challenge), parse header = .ok c → parse c.toHeaderValue = parse header) := by
  refine ⟨fun c => ⟨wellFormed_of_parse, parse_toHeaderValue_of_wellFormed⟩, fun _ _ => wellFormed_of_parse, ?_⟩
  intro header c h
  rw [h, parse_toHeaderValue_of_wellFormed (wellFormed_of_parse h)]

end Challenge

end CimBroker.Auth

import CimBroker.Auth.Server
import CimBroker.Proofs.Text.Cut

/-!
# Reading a `Local` credential

A `PegasusAuthorization` value is read by `Authenticator.checkLocal`: blanks
at its start are skipped, the scheme name `Local` must follow, and the text
between the next two double quotes is the content. A content without a colon
asks for a secret for the user it names; otherwise the user runs to the first
colon and the secret from the last one, and what lies between is the path of
the secret file, which may itself hold colons.

This module gives these forms names, `AsksSecret` and `Redeems`, stated on
the characters of the value, and shows that `checkLocal` issues a secret
exactly on the first, redeems exactly on the second, and refuses anything
else (`checkLocal_cases`). The readers underneath are characterised first,
from the cutting lemmas of `CimBroker.Proofs.Text.Cut`: the quoted content,
and the two splits at a separator.
-/

namespace CimBroker.Auth

open Text

/-! ## Quotes and separators -/

theorem quotedContent_eq_some_iff {cs content : List Char} :
    quotedContent cs = some content ↔
      ∃ junk tail, cs = junk ++ '"' :: (content ++ '"' :: tail) ∧ '"' ∉ junk ∧ '"' ∉ content := by
  constructor
  · intro h
    rw [quotedContent] at h
    cases hd : cs.dropWhile (· ≠ '"') with
    | nil =>
      rw [hd] at h
      simp at h
    | cons q after =>
      rw [hd] at h
      dsimp only at h
      cases hd' : after.dropWhile (· ≠ '"') with
      | nil =>
        rw [hd'] at h
        simp at h
      | cons q' tail =>
        rw [hd', Option.some.injEq] at h
        obtain ⟨junk, rfl, hjunk, -⟩ := dropWhile_ne_eq_cons hd
        obtain ⟨body, rfl, hbody, -⟩ := dropWhile_ne_eq_cons hd'
        rw [takeWhile_ne_append _ hbody] at h
        subst h
        exact ⟨junk, tail, rfl, hjunk, hbody⟩
  · rintro ⟨junk, tail, rfl, hjunk, hcontent⟩
    rw [quotedContent, dropWhile_ne_append _ hjunk]
    dsimp only
    rw [dropWhile_ne_append _ hcontent, takeWhile_ne_append _ hcontent]

theorem splitFirst_eq_none_iff {s : String} {sep : Char} : splitFirst s sep = none ↔ sep ∉ s.toList := by
  rw [← dropWhile_ne_eq_nil, splitFirst]
  split <;> simp_all

theorem splitFirst_eq_some_iff {s a b : String} {sep : Char} :
    splitFirst s sep = some (a, b) ↔ s.toList = a.toList ++ sep :: b.toList ∧ sep ∉ a.toList := by
  constructor
  · intro h
    rw [splitFirst] at h
    cases hd : s.toList.dropWhile (· ≠ sep) with
    | nil =>
      rw [hd] at h
      simp at h
    | cons x after =>
      rw [hd] at h
      simp only [Option.some.injEq, Prod.mk.injEq] at h
      obtain ⟨rfl, rfl⟩ := h
      obtain ⟨pre, hs, hpre, -⟩ := dropWhile_ne_eq_cons hd
      rw [hs, takeWhile_ne_append _ hpre]
      simp [hpre]
  · rintro ⟨hs, ha⟩
    rw [splitFirst, hs, dropWhile_ne_append _ ha, takeWhile_ne_append _ ha]
    simp

theorem splitLast_eq_some_iff {s a b : String} {sep : Char} :
    splitLast s sep = some (a, b) ↔ s.toList = a.toList ++ sep :: b.toList ∧ sep ∉ b.toList := by
  rw [splitLast, Option.map_eq_some_iff]
  constructor
  · rintro ⟨⟨a', b'⟩, h, hab⟩
    rw [splitFirst_eq_some_iff] at h
    simp only [String.toList_ofList, Prod.mk.injEq] at h hab
    obtain ⟨rfl, rfl⟩ := hab
    rw [← List.reverse_reverse s.toList, h.1]
    simp [h.2]
  · rintro ⟨hs, hb⟩
    refine ⟨(String.ofList b.toList.reverse, String.ofList a.toList.reverse), ?_, by simp⟩
    rw [splitFirst_eq_some_iff]
    simp [hs, hb]

/-! ## The credential forms -/

/-- The value `v` is a `Local` credential with `content` between its quotes:
after the blanks at its start, the scheme name `Local`, anything without a
double quote, and `content` quoted. -/
def LocalContent (v content : String) : Prop :=
  ∃ junk tail : List Char,
    (Text.trimStart v).toList = "Local".toList ++ junk ++ '"' :: (content.toList ++ '"' :: tail) ∧
      '"' ∉ junk ∧ '"' ∉ content.toList

/-- `Local "user"`: a request for a secret for `user`. -/
def AsksSecret (v user : String) : Prop :=
  LocalContent v user ∧ ':' ∉ user.toList

/-- `Local "user:file:secret"`: a redemption of the secret in `file`. The user
runs to the first colon and the secret from the last one. -/
def Redeems (v user file secret : String) : Prop :=
  LocalContent v (user ++ ":" ++ file ++ ":" ++ secret) ∧ ':' ∉ user.toList ∧ ':' ∉ secret.toList

theorem localContent_iff {v content : String} :
    LocalContent v content ↔
      (Text.trimStart v).startsWith "Local" = true ∧
        quotedContent ((Text.trimStart v).toList.drop 5) = some content.toList := by
  rw [String.startsWith_string_iff]
  constructor
  · rintro ⟨junk, tail, hv, hjunk, hcontent⟩
    rw [hv, List.append_assoc]
    exact ⟨List.prefix_append _ _,
      by simpa using quotedContent_eq_some_iff.2 ⟨junk, tail, rfl, hjunk, hcontent⟩⟩
  · rintro ⟨⟨rest, hv⟩, hq⟩
    rw [← hv] at hq
    obtain ⟨junk, tail, rfl, hjunk, hcontent⟩ := quotedContent_eq_some_iff.1 (by simpa using hq)
    exact ⟨junk, tail, by rw [← hv, List.append_assoc], hjunk, hcontent⟩

/-- A value holds at most one content. -/
theorem LocalContent.unique {v c₁ c₂ : String} (h₁ : LocalContent v c₁) (h₂ : LocalContent v c₂) :
    c₁ = c₂ := by
  rw [localContent_iff] at h₁ h₂
  exact String.toList_inj.1 (Option.some.inj (h₁.2.symm.trans h₂.2))

/-! ## What `checkLocal` does with each form -/

namespace Authenticator

variable (a : Authenticator) (fs : Files.Store) (now : Nat)

theorem checkLocal_of_asksSecret {v user : String} (h : AsksSecret v user) :
    a.checkLocal fs now v = a.issue fs now user := by
  obtain ⟨hs, hq⟩ := localContent_iff.1 h.1
  have hsplit : splitFirst user ':' = none := splitFirst_eq_none_iff.2 h.2
  simp [checkLocal, hs, hq, hsplit]

theorem checkLocal_of_redeems {v user file secret : String} (h : Redeems v user file secret) :
    a.checkLocal fs now v = .ok (a.redeem fs now user file secret) := by
  obtain ⟨hs, hq⟩ := localContent_iff.1 h.1
  have hfirst : splitFirst (user ++ (":" ++ (file ++ (":" ++ secret)))) ':' =
      some (user, file ++ (":" ++ secret)) := splitFirst_eq_some_iff.2 ⟨by simp, h.2.1⟩
  have hlast : splitLast (file ++ (":" ++ secret)) ':' = some (file, secret) :=
    splitLast_eq_some_iff.2 ⟨by simp, h.2.2⟩
  simp [checkLocal, hs, hq, hfirst, hlast]

/-- **Every `Local` value is one of three things**: refused, leaving the
server and the files alone; a request for a secret; or a redemption. -/
theorem checkLocal_cases (v : String) :
    a.checkLocal fs now v = .ok (.denied, a, fs) ∨
      (∃ user, AsksSecret v user ∧ a.checkLocal fs now v = a.issue fs now user) ∨
      ∃ user file secret, Redeems v user file secret ∧
        a.checkLocal fs now v = .ok (a.redeem fs now user file secret) := by
  by_cases hs : (Text.trimStart v).startsWith "Local" = true
  · cases hq : quotedContent ((Text.trimStart v).toList.drop 5) with
    | none =>
      left
      simp [checkLocal, hs, hq]
    | some content =>
      have hc : LocalContent v (String.ofList content) := localContent_iff.2 ⟨hs, by simpa using hq⟩
      cases hf : splitFirst (String.ofList content) ':' with
      | none =>
        right; left
        exact ⟨_, ⟨hc, splitFirst_eq_none_iff.1 hf⟩, by simp [checkLocal, hs, hq, hf]⟩
      | some parts =>
        obtain ⟨user, rest⟩ := parts
        obtain ⟨hcontent, huser⟩ := splitFirst_eq_some_iff.1 hf
        cases hl : splitLast rest ':' with
        | none =>
          left
          simp [checkLocal, hs, hq, hf, hl]
        | some parts =>
          obtain ⟨file, secret⟩ := parts
          obtain ⟨hrest, hsecret⟩ := splitLast_eq_some_iff.1 hl
          have heq : String.ofList content = user ++ ":" ++ file ++ ":" ++ secret := by
            apply String.toList_inj.1
            rw [hcontent, hrest]
            simp
          right; right
          exact ⟨user, file, secret, ⟨heq ▸ hc, huser, hsecret⟩, by simp [checkLocal, hs, hq, hf, hl]⟩
  · left
    simp [checkLocal, hs]

end Authenticator

end CimBroker.Auth

import Mathlib
import CimBroker.Proofs.Auth.Pending

/-!
# How a server decides on a request

`Authenticator.authenticate` reads the two credential headers of a request,
`Authorization` and `PegasusAuthorization`, and decides alone from them and
the configuration. This module states the whole decision, one rule per
combination of headers:

* with authentication off, the caller is the anonymous user;
* a `PegasusAuthorization` value is decided by the `Local` scheme alone, or
  refused when that scheme is off, whatever `Authorization` holds;
* an `Authorization` value alone authenticates by `Basic` exactly the user
  whose credentials it carries (`BasicCredential`), and is refused
  otherwise, never challenged;
* with no header the caller is challenged for `Basic`, or refused when that
  scheme is off;
* the one failure is a secret file that could not be created.

A `Basic` credential is stated on the text of the header: after the blanks
at its start, the scheme name `Basic`, one space, and a token that, its
blanks trimmed, is the padded base64 writing of the UTF-8 text
`user:password`, the user name holding no colon and the password being the
one configured for the user.

## Main results

* `Authenticator.checkBasic_eq_authenticated_iff` — the token check accepts
  exactly the tokens carrying a user's credentials.
* `Authenticator.authenticate_authorization` — an `Authorization` value alone
  authenticates by `Basic` or is refused.
* `Authenticator.authenticate_eq_error` — the only failure is creating a
  secret file.
* `Authenticator.authenticate_decision` — the whole decision.
-/

namespace CimBroker.Auth

open Text

/-- The password configured for a user is that of the first entry of its
name. -/
theorem lookup_eq_map_find? (users : List (String × String)) (user : String) :
    users.lookup user = (users.find? (·.1 = user)).map Prod.snd := by
  induction users with
  | nil => rfl
  | cons entry users ih =>
    obtain ⟨name, password⟩ := entry
    by_cases h : name = user
    · subst h
      simp [List.lookup]
    · simp [List.lookup, List.find?, h, ih, beq_eq_false_iff_ne.2 (Ne.symm h)]

/-- `token` carries the credentials of `user`: it is the padded base64
writing of the UTF-8 text `user:password`, with no colon in `user`, and
`password` is the one configured for `user`. -/
def BasicToken (users : List (String × String)) (token user : String) : Prop :=
  ∃ bytes password, Base64.decode token = some bytes ∧
    String.fromUTF8? ⟨bytes.toArray⟩ = some (user ++ ":" ++ password) ∧
    ':' ∉ user.toList ∧ users.lookup user = some password

/-- The `Authorization` value `v` carries the `Basic` credentials of `user`:
after the blanks at its start, the scheme name `Basic`, one space, and a
token that, its blanks trimmed, carries the credentials of `user`. -/
def BasicCredential (users : List (String × String)) (v user : String) : Prop :=
  ∃ token, trimStart v = "Basic " ++ token ∧ BasicToken users (trim token) user

/-- A value starts with `Basic` and a space exactly when the scheme read off
it, up to its first space, is `Basic`. -/
theorem eq_basic_append_iff {v token : String} :
    v = "Basic " ++ token ↔ splitFirst v ' ' = some ("Basic", token) := by
  rw [splitFirst_eq_some_iff, ← String.toList_inj]
  simp only [String.toList_append]
  exact ⟨fun h => ⟨h, by decide⟩, fun h => h.1⟩

namespace Authenticator

variable (a : Authenticator) (fs : Files.Store) (now : Nat)

/-! ## The `Basic` token -/

/-- **The token check** authenticates by `Basic` exactly the user whose
credentials the token carries, and refuses every other token. -/
theorem checkBasic_eq_authenticated_iff (token user : String) (s : Scheme) :
    a.checkBasic token = .authenticated user s ↔ s = .basic ∧ BasicToken a.config.users token user := by
  constructor
  · intro h
    unfold checkBasic at h
    -- each failed stage refuses; the last one compares the password of the first entry of the name
    split at h
    · cases h
    · rename_i bytes hbytes
      split at h
      · cases h
      · rename_i text htext
        split at h
        · cases h
        · rename_i name password hsplit
          obtain ⟨hparts, hname⟩ := splitFirst_eq_some_iff.1 hsplit
          split at h
          · rename_i entry expected hfind
            split at h
            · rename_i hpw
              obtain ⟨rfl, rfl⟩ := Outcome.authenticated.inj h
              have htext' : text = name ++ ":" ++ password := by
                apply String.toList_inj.1
                simp [hparts]
              refine ⟨rfl, bytes, password, hbytes, by rw [htext, htext'], hname, ?_⟩
              rw [lookup_eq_map_find?, hfind, ← hpw]
              rfl
            · cases h
          · cases h
  · rintro ⟨rfl, bytes, password, hbytes, htext, hname, hlookup⟩
    -- the text splits at the colon after the user name
    have hsplit : splitFirst (user ++ ":" ++ password) ':' = some (user, password) :=
      splitFirst_eq_some_iff.2 ⟨by simp, hname⟩
    rw [lookup_eq_map_find?, Option.map_eq_some_iff] at hlookup
    obtain ⟨⟨name, expected⟩, hfind, rfl⟩ := hlookup
    simp [checkBasic, hbytes, htext, hsplit, hfind]

/-- The token check authenticates by `Basic` or refuses. -/
theorem checkBasic_cases (token : String) :
    a.checkBasic token = .denied ∨ ∃ user, a.checkBasic token = .authenticated user .basic := by
  unfold checkBasic
  repeat' split
  all_goals first | exact .inl rfl | exact .inr ⟨_, rfl⟩

/-! ## The `Authorization` header alone -/

/-- **An `Authorization` value alone** leaves the server and the files as
they are, and authenticates by `Basic` exactly the user whose credentials it
carries when `Basic` is on; every other value is refused. -/
theorem authenticate_authorization (hen : a.config.enabled = true) (v : String) :
    ∃ o, a.authenticate fs now (some v) none = .ok (o, a, fs) ∧
      (o = .denied ∨ ∃ user, o = .authenticated user .basic) ∧
      ∀ user, o = .authenticated user .basic ↔ a.config.basic = true ∧ BasicCredential a.config.users v user := by
  have hcred : ∀ user, BasicCredential a.config.users v user ↔
      ∃ token, splitFirst (trimStart v) ' ' = some ("Basic", token) ∧ BasicToken a.config.users (trim token) user :=
    fun user => exists_congr fun token => and_congr_left' eq_basic_append_iff
  simp only [authenticate, hen, Bool.not_true, Bool.false_eq_true, if_false]
  -- the scheme is the text up to the first space, or all of it
  cases hsplit : splitFirst (trimStart v) ' ' with
  | none =>
    have hnone : ∀ user, ¬ BasicCredential a.config.users v user := fun user h => by
      obtain ⟨token, hs, -⟩ := (hcred user).1 h
      rw [hsplit] at hs
      cases hs
    -- `Basic` with no token is the empty token, which carries no credentials
    have hempty : a.checkBasic (trim "") = .denied := rfl
    simp only [Option.getD_none]
    split
    · exact ⟨_, rfl, by simp [hempty], fun user => by simp [hempty, hnone]⟩
    · exact ⟨_, rfl, .inl rfl, fun user => by simp [hnone]⟩
  | some parts =>
    obtain ⟨scheme, token⟩ := parts
    simp only [Option.getD_some]
    split
    · rename_i hbasic
      obtain ⟨rfl, hb⟩ := hbasic
      refine ⟨_, rfl, a.checkBasic_cases _, fun user => ?_⟩
      rw [checkBasic_eq_authenticated_iff, hcred]
      simp [hb, hsplit]
    · rename_i hnot
      refine ⟨_, rfl, .inl rfl, fun user => ?_⟩
      simp only [reduceCtorEq, false_iff, hcred, hsplit, Option.some.injEq, Prod.mk.injEq]
      rintro ⟨hb, token', ⟨rfl, -⟩, -⟩
      exact hnot ⟨rfl, hb⟩

/-! ## Failures -/

/-- A request for a secret fails only when its file cannot be created. -/
theorem issue_eq_error {user : String} {e : AuthError} (h : a.issue fs now user = .error e) :
    ∃ err, fs.createNew (a.secretFile user) a.entropy.secret.1 = .error err ∧ e = .io err := by
  unfold issue at h
  split at h
  · cases h
  · cases hc : fs.createNew (a.secretFile user) a.entropy.secret.1 with
    | error err =>
      refine ⟨err, rfl, ?_⟩
      simp only [secretFile] at hc
      simp only [hc, Except.error.injEq] at h
      exact h.symm
    | ok fs₁ =>
      simp only [secretFile] at hc
      simp only [hc] at h
      split at h <;> cases h

/-- **The one failure**: a request fails only when it asks for a `Local`
secret and the secret file cannot be created. -/
theorem authenticate_eq_error {authorization localAuthorization : Option String} {e : AuthError}
    (h : a.authenticate fs now authorization localAuthorization = .error e) :
    ∃ v user, localAuthorization = some v ∧ AsksSecret v user ∧
      ∃ err, fs.createNew (a.secretFile user) a.entropy.secret.1 = .error err ∧ e = .io err := by
  rcases authenticate_cases a fs now authorization localAuthorization with ⟨o, ho, -⟩ | ⟨v, hv, -, -, ho⟩
  · rw [ho] at h
    cases h
  · rw [ho] at h
    rcases checkLocal_cases a fs now v with hc | ⟨user, hasks, hc⟩ | ⟨user, file, secret, -, hc⟩
    · rw [hc] at h
      cases h
    · rw [hc] at h
      exact ⟨v, user, hv, hasks, a.issue_eq_error fs now h⟩
    · rw [hc] at h
      cases h

/-! ## The decision -/

/-- **How a server decides on a request.** With authentication off the
caller is the anonymous user. A `PegasusAuthorization` value is decided by
the `Local` scheme alone, whatever `Authorization` holds, and refused when
that scheme is off. An `Authorization` value alone authenticates by `Basic`
exactly the user whose credentials it carries, when `Basic` is on, and is
refused otherwise, never challenged. With neither header the caller is
challenged for `Basic` in the configured realm, or refused when `Basic` is
off. A request fails only when a secret file cannot be created. -/
theorem authenticate_decision (authorization localAuthorization : Option String) :
    (a.config.enabled = false →
      a.authenticate fs now authorization localAuthorization = .ok (.authenticated "anonymous" .absent, a, fs)) ∧
    (a.config.enabled = true → ∀ v, localAuthorization = some v →
      a.authenticate fs now authorization localAuthorization =
        if a.config.sameHost then a.checkLocal fs now v else .ok (.denied, a, fs)) ∧
    (a.config.enabled = true → localAuthorization = none → ∀ v, authorization = some v →
      ∃ o, a.authenticate fs now authorization localAuthorization = .ok (o, a, fs) ∧
        (o = .denied ∨ ∃ user, o = .authenticated user .basic) ∧
        ∀ user, o = .authenticated user .basic ↔
          a.config.basic = true ∧ BasicCredential a.config.users v user) ∧
    (a.config.enabled = true → localAuthorization = none → authorization = none →
      a.authenticate fs now authorization localAuthorization =
        .ok (if a.config.basic then .challenge ("Basic realm=\"" ++ a.config.realm ++ "\"") else .denied, a, fs)) ∧
    ∀ e, a.authenticate fs now authorization localAuthorization = .error e →
      ∃ v user, localAuthorization = some v ∧ AsksSecret v user ∧
        ∃ err, fs.createNew (a.secretFile user) a.entropy.secret.1 = .error err ∧ e = .io err := by
  refine ⟨fun hoff => ?_, fun hen v hv => ?_, fun hen hloc v hv => ?_, fun hen hloc hauth => ?_,
    fun e h => a.authenticate_eq_error fs now h⟩
  · simp [authenticate, hoff]
  · subst hv
    simp [authenticate, hen]
  · subst hv hloc
    exact a.authenticate_authorization fs now hen v
  · subst hloc hauth
    by_cases hb : a.config.basic = true <;> simp [authenticate, hen, hb, basicChallenge, Challenge.toHeaderValue]

/-- Blanks around the scheme and the token are skipped; `dTpw` is the base64
writing of `u:p`, and a token for `u:q` is refused. -/
example : ((Authenticator.new { enabled := true, users := [("u", "p")] } 0).authenticate {} 0
    (some "  Basic dTpw ") none).map (·.1) = .ok (.authenticated "u" .basic) := by
  rfl

example : ((Authenticator.new { enabled := true, users := [("u", "p")] } 0).authenticate {} 0
    (some "Basic dTpx") none).map (·.1) = .ok .denied := by
  rfl

end Authenticator

end CimBroker.Auth

import Mathlib.Data.Nat.Digits.Defs
import CimBroker.Proofs.Auth.Credential

/-!
# The table of pending secrets

A server answers requests one after another. Each request brings its two
credential values, the time it arrives, the files as they are then and the
randomness the server draws for it; the table of pending secrets is the only
state carried from one request to the next. A request that fails leaves the
server as it was.

This module takes `Authenticator.issue`, `Authenticator.redeem` and
`Authenticator.authenticate` apart, one lemma each, and shows that the table
stays well formed along every sequence of requests: each user has at most
one pending secret, there are never more than `maxPending`, and every
pending path is the trusted directory joined with
`cimb-local-<user>-<16 lowercase hex digits>` for the entry's own user, a
plain user name.

The files do not follow the table as closely. A redemption drops every entry
at the path it names, comparing paths by their components, but removes the
file by the text it was given. A text that ends with a slash names the same
path, yet removing a file by it always fails, so the redeemed secret's file
stays behind with nothing pending (`redeem_files_of_trailingSlash`).

## Main results

* `Authenticator.issue_eq_ok` — the three outcomes of a request for a secret.
* `Authenticator.authenticate_table` — a request keeps a sublist of the
  table, or replaces the entry of one user by a fresh one below the cap.
* `Authenticator.TableInv.after` — the table stays well formed along a run.
* `Authenticator.redeem_files_of_trailingSlash` — a redemption naming its
  file with a slash at the end leaves the file behind.
* `pending_secrets_bookkeeping` — the table invariant along every run from a
  new server, and what a redemption with such a text does.
-/

namespace CimBroker.Files.Store

theorem checkText_eq_ok {s : String} {t : PathText} (h : checkText s = .ok t) : t = PathText.ofString s := by
  unfold checkText at h
  split at h
  · cases h
  · split at h
    · cases h
    · split at h
      · cases h
      · cases h
        rfl

/-- Removing a file named with a slash at the end always fails. -/
theorem removeFile_ne_ok_of_trailingSlash {st st' : Store} {s : String}
    (h : (PathText.ofString s).trailingSlash = true) : st.removeFile s ≠ .ok st' := by
  intro hr
  cases hc : checkText s with
  | error e => simp [removeFile, hc, bind, Except.bind] at hr
  | ok t =>
    rw [checkText_eq_ok hc] at hc
    simp only [removeFile, hc, bind, Except.bind, h, if_true] at hr
    repeat' split at hr
    all_goals cases hr

end CimBroker.Files.Store

namespace CimBroker.Auth

/-- A request as the server sees it: its two credential values, the time it
arrives, the files as they are then, and the randomness drawn for it. -/
structure Request where
  authorization : Option String
  localAuthorization : Option String
  now : Nat
  files : Files.Store
  entropy : Entropy

/-- The `Local` challenge naming the secret file `path`. -/
def localChallenge (path : String) : Outcome := .challenge (Challenge.mk "Local" path).toHeaderValue

/-- Sixteen lowercase hexadecimal digits of a 64-bit value. -/
theorem hex16_digits {n : Nat} (h : n < 2 ^ 64) :
    (hex16 n).toList.length = 16 ∧ ∀ c ∈ (hex16 n).toList, c ∈ "0123456789abcdef".toList := by
  have hlen : (Nat.toDigits 16 n).length ≤ 16 := Nat.toDigits_length 16 n 16 (by decide) (by omega)
  have hdigit : ∀ d < 16, Nat.digitChar d ∈ "0123456789abcdef".toList := by decide
  -- the digits are read off from the last one, by strong induction on `n`
  have hmem : ∀ m, ∀ c ∈ Nat.toDigits 16 m, c ∈ "0123456789abcdef".toList := by
    intro m
    induction m using Nat.strongRecOn with
    | ind m ih =>
      rw [Nat.toDigits_eq_if (by decide)]
      split
      · simpa using hdigit m (by omega)
      · intro c hc
        rcases List.mem_append.1 hc with hc | hc
        · exact ih (m / 16) (by omega) c hc
        · simpa [List.mem_singleton.1 hc] using hdigit (m % 16) (Nat.mod_lt _ (by decide))
  refine ⟨?_, ?_⟩
  · simp only [hex16, String.toList_ofList, List.length_append, List.length_replicate]
    omega
  · intro c hc
    simp only [hex16, String.toList_ofList, List.mem_append, List.mem_replicate] at hc
    rcases hc with ⟨-, rfl⟩ | hc
    · decide
    · exact hmem n c hc

theorem Entropy.nonce_lt (e : Entropy) : e.nonce.1 < 2 ^ 64 := by
  simpa [Entropy.nonce] using UInt64.toNat_lt _

namespace Authenticator

/-! ## Expiry, issue and redemption -/

@[simp] theorem takeExpired_config (a : Authenticator) (now : Nat) :
    (a.takeExpired now).2.config = a.config := rfl

@[simp] theorem takeExpired_issued (a : Authenticator) (now : Nat) :
    (a.takeExpired now).2.issued = a.issued.filter (fun e => now - e.issuedAt < a.config.ttl) := by
  simp only [takeExpired]
  exact List.filter_congr fun e _ => by simp only [ge_iff_le, ← decide_not, Nat.not_le]

@[simp] theorem takeExpired_paths (a : Authenticator) (now : Nat) :
    (a.takeExpired now).1 = (a.issued.filter fun e => a.config.ttl ≤ now - e.issuedAt).map (·.path) := by
  simp [takeExpired]

/-- The file a secret for `user` is written to, named with the nonce drawn
after the secret. -/
def secretFile (a : Authenticator) (user : String) : String :=
  Files.join a.config.trustedDir ("cimb-local-" ++ user ++ "-" ++ hex16 a.entropy.secret.2.nonce.1)

/-- The entries an issue to `user` keeps: those not expired, of other users. -/
def survivors (a : Authenticator) (now : Nat) (user : String) : List Issued :=
  (a.takeExpired now).2.issued.filter (·.user ≠ user)

/-- The files an issue to `user` removes: those of expired entries and of the
user's own. -/
def stale (a : Authenticator) (now : Nat) (user : String) : List String :=
  (a.takeExpired now).1 ++ ((a.takeExpired now).2.issued.filter (·.user = user)).map (·.path)

theorem survivors_sublist (a : Authenticator) (now : Nat) (user : String) :
    List.Sublist (a.survivors now user) a.issued := by
  simp only [survivors, takeExpired_issued]
  exact (List.filter_sublist).trans List.filter_sublist

theorem user_ne_of_mem_survivors {a : Authenticator} {now : Nat} {user : String} {e : Issued}
    (h : e ∈ a.survivors now user) : e.user ≠ user := by
  simp only [survivors, List.mem_filter] at h
  simpa using h.2

/-- **The outcomes of a request for a secret.** A user that is not plain or
not known is refused and nothing changes. Otherwise the secret file is
created first; then the expired entries and the user's own go, and the
request is refused when the table is still at the cap, the new file going
too, or else the new entry joins the table and its path is the challenge. -/
theorem issue_eq_ok {a a' : Authenticator} {fs fs' : Files.Store} {now : Nat} {user : String}
    {o : Outcome} (h : a.issue fs now user = .ok (o, a', fs')) :
    (o = .denied ∧ a' = a ∧ fs' = fs) ∨
    (isPlainUserName user = true ∧ a.isKnownUser user = true ∧ a'.config = a.config ∧
      ∃ fs₁, fs.createNew (a.secretFile user) a.entropy.secret.1 = .ok fs₁ ∧
        ((a.survivors now user).length ≥ a.config.maxPending ∧ o = .denied ∧
            a'.issued = a.survivors now user ∧
            fs' = removeFiles fs₁ (a.stale now user ++ [a.secretFile user]) ∨
          (a.survivors now user).length < a.config.maxPending ∧ o = localChallenge (a.secretFile user) ∧
            a'.issued = (a.survivors now user).filter (!Files.samePath ·.path (a.secretFile user)) ++
              [⟨a.secretFile user, user, a.entropy.secret.1, now⟩] ∧
            fs' = removeFiles fs₁ (a.stale now user))) := by
  by_cases hplain : isPlainUserName user = true ∧ a.isKnownUser user = true
  · right
    refine ⟨hplain.1, hplain.2, ?_⟩
    cases hc : fs.createNew (a.secretFile user) a.entropy.secret.1 with
    | error err =>
      simp only [secretFile] at hc
      simp [issue, hplain, hc] at h
    | ok fs₁ =>
      simp only [secretFile] at hc
      simp only [issue, hplain, hc, Bool.and_self, Bool.not_true, Bool.false_eq_true, if_false] at h
      split at h
      · rename_i hcap
        simp only [Except.ok.injEq, Prod.mk.injEq] at h
        obtain ⟨rfl, rfl, rfl⟩ := h
        exact ⟨rfl, fs₁, rfl, Or.inl ⟨by simpa [survivors] using hcap, rfl, by simp [survivors],
          by simp [stale, secretFile]⟩⟩
      · rename_i hcap
        simp only [Except.ok.injEq, Prod.mk.injEq] at h
        obtain ⟨rfl, rfl, rfl⟩ := h
        exact ⟨rfl, fs₁, rfl, Or.inr ⟨by simpa [survivors] using hcap, rfl,
          by simp [survivors, secretFile], by simp [stale]⟩⟩
  · left
    have hcond : (!(isPlainUserName user && a.isKnownUser user)) = true := by
      revert hplain
      cases isPlainUserName user <;> cases a.isKnownUser user <;> simp
    rw [issue, if_pos hcond] at h
    simp only [Except.ok.injEq, Prod.mk.injEq] at h
    exact ⟨h.1.symm, h.2.1.symm, h.2.2.symm⟩

/-- A redemption drops the expired entries and every entry at the path it
names, whatever the outcome. -/
theorem redeem_server (a : Authenticator) (fs : Files.Store) (now : Nat) (user file secret : String) :
    (a.redeem fs now user file secret).2.1 =
      { a with issued := (a.takeExpired now).2.issued.filter (!Files.samePath ·.path file) } := by
  simp only [redeem]
  split
  · rename_i hnone
    rw [List.find?_eq_none] at hnone
    rw [List.filter_eq_self.2 fun x hx => by simpa using hnone x hx]
    rfl
  · split <;> rfl

theorem mem_redeem_issued {a : Authenticator} {fs : Files.Store} {now : Nat} {user file secret : String}
    {e : Issued} :
    e ∈ (a.redeem fs now user file secret).2.1.issued ↔
      e ∈ a.issued ∧ now - e.issuedAt < a.config.ttl ∧ Files.samePath e.path file = false := by
  simp [redeem_server, and_comm]

/-- A redemption refuses, or authenticates its user by an entry at its path,
of that user and with that secret, which is not empty. -/
theorem redeem_outcome (a : Authenticator) (fs : Files.Store) (now : Nat) (user file secret : String) :
    (a.redeem fs now user file secret).1 = .denied ∨
      ((a.redeem fs now user file secret).1 = .authenticated user .sameHost ∧ secret ≠ "" ∧
        ∃ e ∈ (a.takeExpired now).2.issued, Files.samePath e.path file = true ∧ e.user = user ∧
          e.secret = secret) := by
  simp only [redeem]
  split
  · exact Or.inl rfl
  · rename_i e he
    split
    · rename_i hok
      exact Or.inr ⟨rfl, hok.2.1, e, List.mem_of_find?_eq_some he, by simpa using List.find?_some he,
        hok.1, hok.2.2⟩
    · exact Or.inl rfl

/-- The answer and the server of a redemption that `checkLocal` returned. -/
theorem eq_redeem_of_ok {a a' : Authenticator} {fs fs' : Files.Store} {now : Nat}
    {user file secret : String} {o : Outcome}
    (h : (Except.ok (a.redeem fs now user file secret) : Except AuthError _) = .ok (o, a', fs')) :
    o = (a.redeem fs now user file secret).1 ∧ a' = (a.redeem fs now user file secret).2.1 := by
  rw [Except.ok.injEq] at h
  rw [h]
  exact ⟨rfl, rfl⟩

theorem removeFiles_of_trailingSlash {fs : Files.Store} {s : String}
    (h : (Files.PathText.ofString s).trailingSlash = true) : removeFiles fs [s] = fs := by
  simp only [removeFiles, List.foldl_cons, List.foldl_nil]
  split
  · rename_i heq
    exact absurd heq (Files.Store.removeFile_ne_ok_of_trailingSlash h)
  · rfl

/-- A redemption naming its file with a slash at the end removes no file but
those of expired entries: removing the file it names always fails, while
the entry at that path goes from the table. -/
theorem redeem_files_of_trailingSlash (a : Authenticator) (fs : Files.Store) (now : Nat)
    {user file secret : String} (h : (Files.PathText.ofString file).trailingSlash = true) :
    (a.redeem fs now user file secret).2.2 = removeFiles fs (a.takeExpired now).1 := by
  simp only [redeem]
  split
  · rfl
  · split <;> exact removeFiles_of_trailingSlash h

/-! ## One request -/

/-- `Basic` credentials authenticate by `Basic`, if at all. -/
theorem checkBasic_scheme {a : Authenticator} {token user : String} {s : Scheme}
    (h : a.checkBasic token = .authenticated user s) : s = .basic := by
  unfold checkBasic at h
  repeat' split at h
  all_goals cases h
  rfl

/-- **The two ways a request is decided.** Either it is not read as a `Local`
credential: the server and the files stay as they are, nobody is
authenticated by `Local`, and the answer is no challenge when a `Local` value
was sent. Or it is, and `checkLocal` decides. -/
theorem authenticate_cases (a : Authenticator) (fs : Files.Store) (now : Nat)
    (authorization localAuthorization : Option String) :
    (∃ o, a.authenticate fs now authorization localAuthorization = .ok (o, a, fs) ∧
      (localAuthorization = none ∨
        ¬ (a.config.enabled = true ∧ a.config.sameHost = true) ∧ ∀ value, o ≠ .challenge value) ∧
      ∀ user, o ≠ .authenticated user .sameHost) ∨
    ∃ v, localAuthorization = some v ∧ a.config.enabled = true ∧ a.config.sameHost = true ∧
      a.authenticate fs now authorization localAuthorization = a.checkLocal fs now v := by
  by_cases hen : a.config.enabled = true
  · cases localAuthorization with
    | some v =>
      by_cases hsh : a.config.sameHost = true
      · exact Or.inr ⟨v, rfl, hen, hsh, by simp [authenticate, hen, hsh]⟩
      · exact Or.inl ⟨.denied, by simp [authenticate, hen, hsh],
          Or.inr ⟨fun h => hsh h.2, by simp⟩, by simp⟩
    | none =>
      left
      -- without a `Local` value the answer comes from `Authorization`: `Basic` or nothing
      have hbasic : ∃ o, a.authenticate fs now authorization none = .ok (o, a, fs) ∧
          ∀ user, o ≠ .authenticated user .sameHost := by
        simp only [authenticate, hen, Bool.not_true, Bool.false_eq_true, if_false]
        split
        · split
          · exact ⟨_, rfl, fun user h => nomatch checkBasic_scheme h⟩
          · exact ⟨_, rfl, by simp⟩
        · split <;> exact ⟨_, rfl, by simp⟩
      obtain ⟨o, ho, hsame⟩ := hbasic
      exact ⟨o, ho, Or.inl rfl, hsame⟩
  · exact Or.inl ⟨.authenticated "anonymous" .absent, by simp [authenticate, hen],
      Or.inr ⟨fun h => hen h.1, by simp⟩, by simp⟩

/-- A redemption with `Local` on, the credential read as one. -/
theorem authenticate_of_redeems {a : Authenticator} {fs : Files.Store} {now : Nat}
    {authorization : Option String} {v user file secret : String} (hen : a.config.enabled = true)
    (hsh : a.config.sameHost = true) (h : Redeems v user file secret) :
    a.authenticate fs now authorization (some v) = .ok (a.redeem fs now user file secret) := by
  simp [authenticate, hen, hsh, checkLocal_of_redeems a fs now h]

/-- The configuration of a server never changes. -/
theorem authenticate_config {a a' : Authenticator} {fs fs' : Files.Store} {now : Nat}
    {authorization localAuthorization : Option String} {o : Outcome}
    (h : a.authenticate fs now authorization localAuthorization = .ok (o, a', fs')) : a'.config = a.config := by
  rcases authenticate_cases a fs now authorization localAuthorization with ⟨o', ho, -⟩ | ⟨v, -, -, -, ho⟩
  · rw [ho] at h
    cases h
    rfl
  · rw [ho] at h
    rcases checkLocal_cases a fs now v with hc | ⟨user, -, hc⟩ | ⟨user, file, secret, -, hc⟩
    · rw [hc] at h
      cases h
      rfl
    · rw [hc] at h
      rcases issue_eq_ok h with ⟨-, rfl, -⟩ | ⟨-, -, hconfig, -⟩
      · rfl
      · exact hconfig
    · rw [hc] at h
      obtain ⟨-, rfl⟩ := eq_redeem_of_ok h
      rw [redeem_server]

/-- **What a request does to the table**: it keeps a sublist of it, or,
issuing to a plain user, keeps a sublist of the survivors, which are below
the cap, and adds the new entry for that user. -/
theorem authenticate_table {a a' : Authenticator} {fs fs' : Files.Store} {now : Nat}
    {authorization localAuthorization : Option String} {o : Outcome}
    (h : a.authenticate fs now authorization localAuthorization = .ok (o, a', fs')) :
    List.Sublist a'.issued a.issued ∨
      ∃ user, isPlainUserName user = true ∧ (a.survivors now user).length < a.config.maxPending ∧
        a'.issued = (a.survivors now user).filter (!Files.samePath ·.path (a.secretFile user)) ++
          [⟨a.secretFile user, user, a.entropy.secret.1, now⟩] := by
  rcases authenticate_cases a fs now authorization localAuthorization with ⟨o', ho, -⟩ | ⟨v, -, -, -, ho⟩
  · rw [ho] at h
    cases h
    exact Or.inl (List.Sublist.refl _)
  · rw [ho] at h
    rcases checkLocal_cases a fs now v with hc | ⟨user, -, hc⟩ | ⟨user, file, secret, -, hc⟩
    · rw [hc] at h
      cases h
      exact Or.inl (List.Sublist.refl _)
    · rw [hc] at h
      rcases issue_eq_ok h with
        ⟨-, rfl, -⟩ | ⟨hplain, -, -, fs₁, -, ⟨-, -, hissued, -⟩ | ⟨hcap, -, hissued, -⟩⟩
      · exact Or.inl (List.Sublist.refl _)
      · exact Or.inl (hissued ▸ survivors_sublist a now user)
      · exact Or.inr ⟨user, hplain, hcap, hissued⟩
    · rw [hc] at h
      obtain ⟨-, rfl⟩ := eq_redeem_of_ok h
      rw [redeem_server, takeExpired_issued]
      exact Or.inl ((List.filter_sublist).trans List.filter_sublist)

/-! ## Requests one after another -/

/-- The answer and the server kept from a result of `authenticate`: a
failure keeps the server it started from. -/
def settle (a : Authenticator) : Except AuthError (Outcome × Authenticator × Files.Store) →
    Except AuthError Outcome × Authenticator
  | .ok (o, a', _) => (.ok o, a')
  | .error e => (.error e, a)

/-- One request, with the randomness it brings. -/
def serve (a : Authenticator) (r : Request) : Except AuthError Outcome × Authenticator :=
  a.settle ({ a with entropy := r.entropy }.authenticate r.files r.now r.authorization r.localAuthorization)

/-- The server after a sequence of requests. -/
def after (a : Authenticator) : List Request → Authenticator
  | [] => a
  | r :: rs => (a.serve r).2.after rs

@[simp] theorem after_nil (a : Authenticator) : a.after [] = a := rfl

@[simp] theorem after_cons (a : Authenticator) (r : Request) (rs : List Request) :
    a.after (r :: rs) = (a.serve r).2.after rs := rfl

theorem after_append (a : Authenticator) (rs rs' : List Request) :
    a.after (rs ++ rs') = (a.after rs).after rs' := by
  induction rs generalizing a with
  | nil => rfl
  | cons r rs ih => exact ih _

/-- A request either fails, keeping the server, or is answered by what
`authenticate` gives with the request's randomness. -/
theorem serve_cases (a : Authenticator) (r : Request) :
    (∃ err, a.serve r = (.error err, a)) ∨
      ∃ o fs', (a.serve r).1 = .ok o ∧
        { a with entropy := r.entropy }.authenticate r.files r.now r.authorization r.localAuthorization =
          .ok (o, (a.serve r).2, fs') := by
  unfold serve
  cases { a with entropy := r.entropy }.authenticate r.files r.now r.authorization r.localAuthorization with
  | error err => exact Or.inl ⟨err, rfl⟩
  | ok res =>
    obtain ⟨o, a', fs'⟩ := res
    exact Or.inr ⟨o, fs', rfl, rfl⟩

theorem serve_config (a : Authenticator) (r : Request) : (a.serve r).2.config = a.config := by
  rcases serve_cases a r with ⟨err, hs⟩ | ⟨o, fs', -, ha⟩
  · rw [hs]
  · have hconfig := authenticate_config ha
    exact hconfig

theorem after_config (a : Authenticator) (rs : List Request) : (a.after rs).config = a.config := by
  induction rs generalizing a with
  | nil => rfl
  | cons r rs ih => rw [after_cons, ih, serve_config]

/-- A failed request leaves the server, and so its table, as it was. -/
theorem serve_error {a : Authenticator} {r : Request} {err : AuthError}
    (h : (a.serve r).1 = .error err) : (a.serve r).2 = a := by
  rcases serve_cases a r with ⟨err', hs⟩ | ⟨o, fs', ho, -⟩
  · rw [hs]
  · rw [ho] at h
    cases h

/-! ## The table stays well formed -/

/-- A pending path names a secret file of its own user: the trusted
directory joined with `cimb-local-<user>-<digits>`, sixteen lowercase
hexadecimal digits. -/
def WellNamed (config : AuthConfig) (e : Issued) : Prop :=
  isPlainUserName e.user = true ∧
    ∃ digits : List Char, digits.length = 16 ∧ (∀ c ∈ digits, c ∈ "0123456789abcdef".toList) ∧
      e.path = Files.join config.trustedDir ("cimb-local-" ++ e.user ++ "-" ++ String.ofList digits)

/-- The table of a server is well formed: one entry per user at most, no
more entries than the cap, and every path well named. -/
structure TableInv (a : Authenticator) : Prop where
  users_nodup : (a.issued.map (·.user)).Nodup
  length_le : a.issued.length ≤ a.config.maxPending
  wellNamed : ∀ e ∈ a.issued, WellNamed a.config e

theorem wellNamed_secretFile (a : Authenticator) {user : String} (hplain : isPlainUserName user = true)
    (now : Nat) : WellNamed a.config ⟨a.secretFile user, user, a.entropy.secret.1, now⟩ := by
  obtain ⟨hlen, hhex⟩ := hex16_digits (Entropy.nonce_lt a.entropy.secret.2)
  exact ⟨hplain, (hex16 a.entropy.secret.2.nonce.1).toList, hlen, hhex, by simp [secretFile]⟩

/-- A table that keeps a sublist of a well-formed table is well formed. -/
theorem TableInv.of_sublist {a a' : Authenticator} (ha : a.TableInv) (hconfig : a'.config = a.config)
    (hsub : List.Sublist a'.issued a.issued) : a'.TableInv where
  users_nodup := ha.users_nodup.sublist (hsub.map _)
  length_le := hconfig ▸ hsub.length_le.trans ha.length_le
  wellNamed e he := hconfig ▸ ha.wellNamed e (hsub.subset he)

theorem TableInv.authenticate {a a' : Authenticator} {fs fs' : Files.Store} {now : Nat}
    {authorization localAuthorization : Option String} {o : Outcome} (ha : a.TableInv)
    (h : a.authenticate fs now authorization localAuthorization = .ok (o, a', fs')) : a'.TableInv := by
  have hconfig := authenticate_config h
  rcases authenticate_table h with hsub | ⟨user, hplain, hcap, hissued⟩
  · exact ha.of_sublist hconfig hsub
  · -- the kept entries are survivors: old, and of other users
    have hkept : 
        List.Sublist ((a.survivors now user).filter (!Files.samePath ·.path (a.secretFile user))) a.issued :=
      List.filter_sublist.trans (survivors_sublist a now user)
    have hother : ∀ e ∈ (a.survivors now user).filter (!Files.samePath ·.path (a.secretFile user)),
        e.user ≠ user := fun e he => user_ne_of_mem_survivors (List.mem_filter.1 he).1
    refine ⟨?_, ?_, ?_⟩
    · rw [hissued, List.map_append, List.nodup_append]
      refine ⟨ha.users_nodup.sublist (hkept.map _), by simp, ?_⟩
      intro x hx y hy
      simp only [List.map_cons, List.map_nil, List.mem_singleton] at hy
      obtain ⟨e, he, rfl⟩ := List.mem_map.1 hx
      rw [hy]
      exact hother e he
    · rw [hissued, hconfig, List.length_append, List.length_singleton]
      have hle := (List.filter_sublist (p := fun x => !Files.samePath x.path (a.secretFile user))
        (l := a.survivors now user)).length_le
      omega
    · intro e he
      rw [hissued, List.mem_append, List.mem_singleton] at he
      rw [hconfig]
      rcases he with he | rfl
      · exact ha.wellNamed e (hkept.subset he)
      · exact wellNamed_secretFile a hplain now

theorem TableInv.serve {a : Authenticator} (ha : a.TableInv) (r : Request) : (a.serve r).2.TableInv := by
  rcases serve_cases a r with ⟨err, hs⟩ | ⟨o, fs', -, h⟩
  · rw [hs]
    exact ha
  · -- the request's randomness changes no field the invariant reads
    have hdrawn : TableInv { a with entropy := r.entropy } := ha.of_sublist rfl (List.Sublist.refl _)
    exact hdrawn.authenticate h

theorem TableInv.after {a : Authenticator} (ha : a.TableInv) (rs : List Request) : (a.after rs).TableInv := by
  induction rs generalizing a with
  | nil => exact ha
  | cons r rs ih => exact ih (ha.serve r)

theorem tableInv_of_issued_eq_nil {a : Authenticator} (h : a.issued = []) : a.TableInv where
  users_nodup := by simp [h]
  length_le := by simp [h]
  wellNamed e he := by simp [h] at he

end Authenticator

open Authenticator in
/-- **The bookkeeping of pending secrets.** Along every sequence of requests
to a new server, whatever their credential values, times, files and
randomness, the table has at most one entry per user and never more than
`maxPending`, and every pending path is the trusted directory joined with
`cimb-local-<user>-<16 lowercase hex digits>` for the entry's own user, a
plain user name. A request that fails leaves the server as it was. A
redemption whose file text ends with a slash drops every entry at that path,
but removes no file beyond those of expired entries: the secret file it
redeemed is left behind. -/
theorem pending_secrets_bookkeeping (config : AuthConfig) (seed : UInt64) :
    (∀ rs : List Request,
      (((Authenticator.new config seed).after rs).issued.map (·.user)).Nodup ∧
        ((Authenticator.new config seed).after rs).pending ≤ config.maxPending ∧
        ∀ e ∈ ((Authenticator.new config seed).after rs).issued, WellNamed config e) ∧
    (∀ (a : Authenticator) (r : Request) (err : AuthError), (a.serve r).1 = .error err → (a.serve r).2 = a) ∧
    (∀ (a : Authenticator) (fs : Files.Store) (now : Nat) (authorization : Option String)
      (v user file secret : String), a.config.enabled = true → a.config.sameHost = true →
      Redeems v user file secret → (Files.PathText.ofString file).trailingSlash = true →
      ∃ o a', a.authenticate fs now authorization (some v) = .ok (o, a', removeFiles fs (a.takeExpired now).1) ∧
        ∀ e ∈ a'.issued, Files.samePath e.path file = false) := by
  refine ⟨fun rs => ?_, fun a r err h => serve_error h, ?_⟩
  · have hinv := (tableInv_of_issued_eq_nil (a := Authenticator.new config seed) rfl).after rs
    have hconfig : ((Authenticator.new config seed).after rs).config = config := after_config _ rs
    exact ⟨hinv.users_nodup, hinv.length_le.trans_eq (congrArg AuthConfig.maxPending hconfig),
      fun e he => hconfig ▸ hinv.wellNamed e he⟩
  · intro a fs now authorization v user file secret hen hsh hred hslash
    refine ⟨(a.redeem fs now user file secret).1, (a.redeem fs now user file secret).2.1, ?_, fun e he => ?_⟩
    · rw [authenticate_of_redeems hen hsh hred, ← redeem_files_of_trailingSlash a fs now hslash]
    · exact (mem_redeem_issued.1 he).2.2

end CimBroker.Auth

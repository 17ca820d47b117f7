import Mathlib.Data.List.Induction
import CimBroker.Proofs.Auth.Pending

/-!
# A `Local` secret authenticates once

Along any sequence of requests to one server, a request is authenticated by
`Local` only if it presents, as `user:file:secret`, a secret that an earlier
request of the same sequence obtained for that user: the earlier request
asked for it, the server wrote the secret to a new file at a path that is
`file` as paths go, the secret is the one written and not empty, and it was
issued less than `ttl` seconds before. No request in between got a new
secret for that user or presented that path.

A redemption removes its path from the table whatever its outcome, so two
requests authenticated with one path have a fresh issue of that path between
them: each secret handed out authenticates at most one request.

The argument is an invariant over runs: every pending entry was handed out
by some request and spared by every request after it (`witnessed_of_mem`).
One request keeps an entry only when it did not replace the entry's user and
did not present its path (`serve_mem`, `serve_presents`), and authenticates
only by a pending entry (`serve_authenticated`).

## Main results

* `Authenticator.serve_mem` — where an entry of the table after a request comes from.
* `Authenticator.serve_presents` — a redemption consumes the path it presents.
* `Authenticator.witnessed_of_mem` — every pending entry has its history.
* `Authenticator.authenticated_history` — soundness of `Local` authentication.
* `Authenticator.fresh_between` — a secret is used once.
* `local_secret_single_use` — the three together.
-/

namespace CimBroker.Files

theorem samePath_self (p : String) : samePath p p = true := by
  simp [samePath]

theorem samePath_comm (p q : String) : samePath p q = samePath q p := by
  by_cases h : components p = components q
  · simp [samePath, h]
  · have h' : components q ≠ components p := fun h' => h h'.symm
    simp [samePath, h, h']

theorem samePath_trans {p q r : String} (hpq : samePath p q = true) (hqr : samePath q r = true) :
    samePath p r = true := by
  simp only [samePath, beq_iff_eq] at hpq hqr ⊢
  exact hpq.trans hqr

end CimBroker.Files

namespace CimBroker.Auth

/-- A redemption value names one user, file and secret. -/
theorem Redeems.unique {v user file secret user' file' secret' : String} (h : Redeems v user file secret)
    (h' : Redeems v user' file' secret') : user = user' ∧ file = file' ∧ secret = secret' := by
  have hcontent := h.1.unique h'.1
  -- the user runs to the first colon, the secret from the last one
  have hfirst : ∀ u f s : String, ':' ∉ u.toList →
      (splitFirst (user ++ ":" ++ file ++ ":" ++ secret) ':' = some (u, f ++ ":" ++ s) ↔
        user ++ ":" ++ file ++ ":" ++ secret = u ++ ":" ++ f ++ ":" ++ s) := by
    intro u f s hu
    rw [splitFirst_eq_some_iff, ← String.toList_inj]
    simp [hu]
  have h₁ := (hfirst user file secret h.2.1).2 rfl
  have h₂ := (hfirst user' file' secret' h'.2.1).2 hcontent
  rw [h₁, Option.some.injEq, Prod.mk.injEq] at h₂
  obtain ⟨rfl, hrest⟩ := h₂
  have hl : splitLast (file ++ ":" ++ secret) ':' = some (file, secret) :=
    splitLast_eq_some_iff.2 ⟨by simp, h.2.2⟩
  have hl' : splitLast (file ++ ":" ++ secret) ':' = some (file', secret') :=
    hrest ▸ splitLast_eq_some_iff.2 ⟨by simp, h'.2.2⟩
  rw [hl, Option.some.injEq, Prod.mk.injEq] at hl'
  exact ⟨rfl, hl'⟩

namespace Request

/-- The request asks for a secret for `user`: `Local "user"`. -/
def Asks (r : Request) (user : String) : Prop :=
  ∃ v, r.localAuthorization = some v ∧ AsksSecret v user

/-- The request redeems a secret presenting, as its file, the path `path`. -/
def Presents (r : Request) (path : String) : Prop :=
  ∃ v user file secret, r.localAuthorization = some v ∧ Redeems v user file secret ∧
    Files.samePath file path = true

end Request

namespace Authenticator

/-- Each request of a sequence with its answer. -/
def log (a : Authenticator) : List Request → List (Request × Except AuthError Outcome)
  | [] => []
  | r :: rs => (r, (a.serve r).1) :: (a.serve r).2.log rs

theorem log_append_singleton (a : Authenticator) (rs : List Request) (r : Request) :
    a.log (rs ++ [r]) = a.log rs ++ [(r, ((a.after rs).serve r).1)] := by
  induction rs generalizing a with
  | nil => rfl
  | cons r' rs ih => simp [log, ih]

theorem map_fst_log (a : Authenticator) (rs : List Request) : (a.log rs).map Prod.fst = rs := by
  induction rs generalizing a with
  | nil => rfl
  | cons r rs ih => simp [log, ih]

/-- Served by `a`, the request `r` hands out the pending secret `e`: it asks
for a secret for `e.user`, the secret `e.secret` is written to a new file at
`e.path`, the answer is the `Local` challenge naming that path, and the entry
bears the request's time. -/
structure Hands (a : Authenticator) (r : Request) (e : Issued) : Prop where
  asks : r.Asks e.user
  answer : (a.serve r).1 = .ok (localChallenge e.path)
  writes : ∃ fs, r.files.createNew e.path e.secret = .ok fs
  stamped : e.issuedAt = r.now

/-- Request `x.1`, answered `x.2`, spares the pending secret `e`: it is not a
request for a secret for `e.user` answered by a `Local` challenge, and it
does not present `e.path`. -/
def Spares (x : Request × Except AuthError Outcome) (e : Issued) : Prop :=
  ¬ (x.1.Asks e.user ∧ ∃ path, x.2 = .ok (localChallenge path)) ∧ ¬ x.1.Presents e.path

/-! ## One request -/

section Step

variable {a a' : Authenticator} {fs fs' : Files.Store} {now : Nat}
  {authorization localAuthorization : Option String} {o : Outcome}

/-- An entry after an issue to `user` is an old one, of another user when
the answer is a challenge, or the new one: written with its secret at its
path, named by the challenge, and bearing the time of the issue. -/
theorem issue_mem {user : String} {e : Issued} (h : a.issue fs now user = .ok (o, a', fs'))
    (he : e ∈ a'.issued) :
    (e ∈ a.issued ∧ ∀ path, o = localChallenge path → e.user ≠ user) ∨
    (e.user = user ∧ o = localChallenge e.path ∧ (∃ fs₁, fs.createNew e.path e.secret = .ok fs₁) ∧
      e.issuedAt = now) := by
  rcases issue_eq_ok h with
    ⟨rfl, rfl, -⟩ | ⟨-, -, -, fs₁, hcreate, ⟨-, rfl, hissued, -⟩ | ⟨-, rfl, hissued, -⟩⟩
  · exact Or.inl ⟨he, fun path hpath => by simp [localChallenge] at hpath⟩
  · rw [hissued] at he
    exact Or.inl ⟨(survivors_sublist a now user).subset he,
      fun path hpath => by simp [localChallenge] at hpath⟩
  · rw [hissued, List.mem_append, List.mem_singleton] at he
    rcases he with he | rfl
    · have hsurv := (List.mem_filter.1 he).1
      exact Or.inl ⟨(survivors_sublist a now user).subset hsurv, fun _ _ => user_ne_of_mem_survivors hsurv⟩
    · exact Or.inr ⟨rfl, rfl, ⟨fs₁, hcreate⟩, rfl⟩

/-- **Where an entry of the table comes from.** An entry after a request was
there before, and the request got no `Local` challenge asking for a secret
for the entry's user; or the request asked for a secret for the entry's user,
the file was created with the entry's secret at its path, the answer names
that path, and the entry bears the request's time. -/
theorem authenticate_mem {e : Issued}
    (h : a.authenticate fs now authorization localAuthorization = .ok (o, a', fs')) (he : e ∈ a'.issued) :
    (e ∈ a.issued ∧
      ¬ ((∃ v, localAuthorization = some v ∧ AsksSecret v e.user) ∧ ∃ path, o = localChallenge path)) ∨
    ((∃ v, localAuthorization = some v ∧ AsksSecret v e.user) ∧ o = localChallenge e.path ∧
      (∃ fs₁, fs.createNew e.path e.secret = .ok fs₁) ∧ e.issuedAt = now) := by
  rcases authenticate_cases a fs now authorization localAuthorization with
    ⟨o', ho, hnot, -⟩ | ⟨v, hv, -, -, ho⟩
  · rw [ho] at h
    cases h
    refine Or.inl ⟨he, ?_⟩
    rintro ⟨⟨v, hv, -⟩, path, rfl⟩
    rcases hnot with hnone | ⟨-, hchallenge⟩
    · rw [hnone] at hv
      cases hv
    · exact hchallenge _ rfl
  · rw [ho] at h
    rcases checkLocal_cases a fs now v with hc | ⟨user, hask, hc⟩ | ⟨user, file, secret, -, hc⟩
    · rw [hc] at h
      cases h
      exact Or.inl ⟨he, by rintro ⟨-, path, hpath⟩; simp [localChallenge] at hpath⟩
    · rw [hc] at h
      rcases issue_mem h he with ⟨hold, hother⟩ | ⟨rfl, hpath, hwrite, hstamp⟩
      · -- an old entry of the user asked for would have been replaced
        refine Or.inl ⟨hold, ?_⟩
        rintro ⟨⟨v', hv', hask'⟩, path, hpath⟩
        rw [hv, Option.some.injEq] at hv'
        subst hv'
        exact hother path hpath (hask'.1.unique hask.1)
      · exact Or.inr ⟨⟨v, hv, hask⟩, hpath, hwrite, hstamp⟩
    · rw [hc] at h
      obtain ⟨rfl, rfl⟩ := eq_redeem_of_ok h
      rw [mem_redeem_issued] at he
      refine Or.inl ⟨he.1, ?_⟩
      rintro ⟨-, path, hpath⟩
      rcases redeem_outcome a fs now user file secret with hd | ⟨hd, -⟩ <;>
        · rw [hd] at hpath
          simp [localChallenge] at hpath

/-- **Authenticated by `Local` only with a live pending secret**: the request
redeems `user:file:secret`, with a secret that is not empty, and an entry
at `file` of that user with that secret was issued less than `ttl` seconds
before. -/
theorem authenticate_authenticated {user : String}
    (h : a.authenticate fs now authorization localAuthorization = .ok (.authenticated user .sameHost, a', fs')) :
    ∃ v file secret, localAuthorization = some v ∧ Redeems v user file secret ∧ secret ≠ "" ∧
      ∃ e ∈ a.issued, now - e.issuedAt < a.config.ttl ∧ Files.samePath e.path file = true ∧
        e.user = user ∧ e.secret = secret := by
  rcases authenticate_cases a fs now authorization localAuthorization with
    ⟨o', ho, -, hsame⟩ | ⟨v, hv, -, -, ho⟩
  · rw [ho] at h
    cases h
    exact absurd rfl (hsame user)
  · rw [ho] at h
    rcases checkLocal_cases a fs now v with hc | ⟨u, -, hc⟩ | ⟨u, file, secret, hred, hc⟩
    · rw [hc] at h
      cases h
    · rw [hc] at h
      rcases issue_eq_ok h with ⟨ho', -, -⟩ | ⟨-, -, -, -, -, ⟨-, ho', -, -⟩ | ⟨-, ho', -, -⟩⟩ <;>
        simp [localChallenge] at ho'
    · rw [hc] at h
      obtain ⟨ho, -⟩ := eq_redeem_of_ok h
      rcases redeem_outcome a fs now u file secret with hd | ⟨hd, hsecret, e, he, hpath, huser, hsec⟩
      · rw [hd] at ho
        cases ho
      · rw [hd, Outcome.authenticated.injEq] at ho
        obtain ⟨rfl, -⟩ := ho
        rw [takeExpired_issued, List.mem_filter, decide_eq_true_eq] at he
        exact ⟨v, file, secret, hv, hred, hsecret, e, he.1, he.2, hpath, huser, hsec⟩

end Step

/-- **What one request does to an entry of the table**: it comes from the
table before, and the request got no `Local` challenge for a secret for the
entry's user; or the request handed it out. -/
theorem serve_mem {a : Authenticator} {r : Request} {e : Issued} (he : e ∈ (a.serve r).2.issued) :
    (e ∈ a.issued ∧ ¬ (r.Asks e.user ∧ ∃ path, (a.serve r).1 = .ok (localChallenge path))) ∨
      a.Hands r e := by
  rcases serve_cases a r with ⟨err, hs⟩ | ⟨o, fs', ho, h⟩
  · rw [hs] at he ⊢
    exact Or.inl ⟨he, by rintro ⟨-, path, hpath⟩; cases hpath⟩
  · rw [ho]
    rcases authenticate_mem h he with ⟨hold, hnot⟩ | ⟨hask, hpath, hwrite, hstamp⟩
    · refine Or.inl ⟨hold, ?_⟩
      rintro ⟨hask, path, hpath⟩
      exact hnot ⟨hask, path, Except.ok.inj hpath⟩
    · exact Or.inr ⟨hask, ho.trans (congrArg Except.ok hpath), hwrite, hstamp⟩

/-- A request that hands out a secret reaches `checkLocal`: `Local` is on. -/
theorem Hands.config {a : Authenticator} {r : Request} {e : Issued} (h : a.Hands r e) :
    a.config.enabled = true ∧ a.config.sameHost = true := by
  obtain ⟨v, hv, -⟩ := h.asks
  rcases serve_cases a r with ⟨err, hs⟩ | ⟨o, fs', ho, ha⟩
  · have hanswer := h.answer
    rw [hs] at hanswer
    cases hanswer
  · rcases authenticate_cases { a with entropy := r.entropy } r.files r.now r.authorization
      r.localAuthorization with ⟨o', ho', hnot, -⟩ | ⟨v', -, hen, hsh, -⟩
    · rw [ho'] at ha
      have hoo : o' = o := congrArg Prod.fst (Except.ok.inj ha)
      rcases hnot with hnone | ⟨-, hchallenge⟩
      · rw [hnone] at hv
        cases hv
      · exact absurd (hoo.trans (Except.ok.inj (ho.symm.trans h.answer))) (hchallenge _)
    · exact ⟨hen, hsh⟩

/-- **A redemption consumes its path.** With `Local` on, a request that
presents a path never fails, and afterwards no entry of the table is at that
path, whatever the outcome. -/
theorem serve_presents {a : Authenticator} {r : Request} {path : String} (hen : a.config.enabled = true)
    (hsh : a.config.sameHost = true) (hp : r.Presents path) :
    (∃ o, (a.serve r).1 = .ok o) ∧ ∀ e ∈ (a.serve r).2.issued, Files.samePath e.path path = false := by
  obtain ⟨v, user, file, secret, hv, hred, hsame⟩ := hp
  have hserve : a.serve r = (.ok ({ a with entropy := r.entropy }.redeem r.files r.now user file secret).1,
      ({ a with entropy := r.entropy }.redeem r.files r.now user file secret).2.1) := by
    rw [serve, hv, authenticate_of_redeems (a := { a with entropy := r.entropy }) hen hsh hred]
    rfl
  refine ⟨⟨_, by rw [hserve]⟩, fun e he => ?_⟩
  rw [hserve, mem_redeem_issued] at he
  -- an entry at `path` would be at `file` too
  cases hpath : Files.samePath e.path path with
  | false => rfl
  | true =>
    rw [Files.samePath_comm] at hsame
    have := Files.samePath_trans hpath hsame
    rw [he.2.2] at this
    cases this

/-- A request authenticated by `Local` redeems a live pending secret. -/
theorem serve_authenticated {a : Authenticator} {r : Request} {user : String}
    (h : (a.serve r).1 = .ok (.authenticated user .sameHost)) :
    ∃ v file secret, r.localAuthorization = some v ∧ Redeems v user file secret ∧ secret ≠ "" ∧
      ∃ e ∈ a.issued, r.now - e.issuedAt < a.config.ttl ∧ Files.samePath e.path file = true ∧
        e.user = user ∧ e.secret = secret := by
  rcases serve_cases a r with ⟨err, hs⟩ | ⟨o, fs', ho, ha⟩
  · rw [hs] at h
    cases h
  · rw [h, Except.ok.injEq] at ho
    subst ho
    have hauth := authenticate_authenticated ha
    exact hauth

/-! ## Runs -/

/-- The pending secret `e` of the server after the requests `rs` was handed
out by one of them, and every request after that one spared it. -/
def Witnessed (a₀ : Authenticator) (rs : List Request) (e : Issued) : Prop :=
  ∃ xs rᵢ ys, rs = xs ++ rᵢ :: ys ∧ (a₀.after xs).Hands rᵢ e ∧
    ∀ x ∈ (a₀.after (xs ++ [rᵢ])).log ys, Spares x e

/-- **Every pending secret has its history**: from a server with none
pending, each entry of the table was handed out by an earlier request and
spared by every request since. -/
theorem witnessed_of_mem {a₀ : Authenticator} (h₀ : a₀.issued = []) (rs : List Request) :
    ∀ e ∈ (a₀.after rs).issued, Witnessed a₀ rs e := by
  induction rs using List.reverseRecOn with
  | nil => simp [h₀]
  | append_singleton rs r ih =>
    intro e he
    rw [after_append, after_cons, after_nil] at he
    rcases serve_mem he with ⟨hold, hnot⟩ | hhands
    · obtain ⟨xs, rᵢ, ys, rfl, hhands, hspares⟩ := ih e hold
      -- the entry was handed out, so `Local` is on and a presentation would have consumed it
      have hcfg : (a₀.after (xs ++ rᵢ :: ys)).config = (a₀.after xs).config := by
        rw [after_config, after_config]
      have hrest : (a₀.after (xs ++ [rᵢ])).after ys = a₀.after (xs ++ rᵢ :: ys) := by
        rw [← after_append, List.append_assoc, List.singleton_append]
      refine ⟨xs, rᵢ, ys ++ [r], by simp, hhands, ?_⟩
      rw [log_append_singleton, hrest]
      intro x hx
      rcases List.mem_append.1 hx with hx | hx
      · exact hspares x hx
      · rw [List.mem_singleton] at hx
        subst hx
        refine ⟨hnot, fun hp => ?_⟩
        have hon := hhands.config
        rw [← hcfg] at hon
        have hgone := (serve_presents hon.1 hon.2 hp).2 e he
        rw [Files.samePath_self] at hgone
        cases hgone
    · exact ⟨rs, r, [], by simp, hhands, by simp [log]⟩

theorem localChallenge_ne_authenticated (path user : String) (s : Scheme) :
    localChallenge path ≠ .authenticated user s := by
  simp [localChallenge]

/-- **Soundness.** From a server with no secret pending, a request
authenticated as `user` by `Local` redeems `user:file:secret` with a secret
that is not empty, and an earlier request handed out an entry of `user` at a
path that is `file`, with that secret, less than `ttl` seconds before, and
every request since spared it. -/
theorem authenticated_history {a₀ : Authenticator} (h₀ : a₀.issued = []) {rs : List Request}
    {r : Request} {user : String} (h : ((a₀.after rs).serve r).1 = .ok (.authenticated user .sameHost)) :
    ∃ v file secret, r.localAuthorization = some v ∧ Redeems v user file secret ∧ secret ≠ "" ∧
      ∃ xs rᵢ ys e, rs = xs ++ rᵢ :: ys ∧ (a₀.after xs).Hands rᵢ e ∧
        Files.samePath e.path file = true ∧ e.user = user ∧ e.secret = secret ∧
        r.now - rᵢ.now < a₀.config.ttl ∧ ∀ x ∈ (a₀.after (xs ++ [rᵢ])).log ys, Spares x e := by
  obtain ⟨v, file, secret, hv, hred, hsecret, e, he, hlive, hpath, huser, hsec⟩ := serve_authenticated h
  obtain ⟨xs, rᵢ, ys, hrs, hhands, hspares⟩ := witnessed_of_mem h₀ rs e he
  have hlive' : r.now - rᵢ.now < a₀.config.ttl := by
    rw [← hhands.stamped, ← after_config a₀ rs]
    exact hlive
  exact ⟨v, file, secret, hv, hred, hsecret, xs, rᵢ, ys, e, hrs, hhands, hpath, huser, hsec, hlive',
    hspares⟩

/-- Two cuts of one list, each at an element: the same cut, or the first
element lies after the second cut, or the second element after the first. -/
theorem append_cons_eq_append_cons {α : Type} {xs ys as bs : List α} {x y : α}
    (h : xs ++ x :: ys = as ++ y :: bs) :
    (as = xs ∧ y = x) ∨ x ∈ bs ∨ ∃ cs, ys = cs ++ y :: bs ∧ as = xs ++ x :: cs := by
  rcases List.append_eq_append_iff.1 h with ⟨cs, has, hrest⟩ | ⟨cs, hxs, hrest⟩
  · cases cs with
    | nil =>
      simp only [List.nil_append, List.cons.injEq] at hrest
      exact Or.inl ⟨by simpa using has, hrest.1.symm⟩
    | cons c cs =>
      simp only [List.cons_append, List.cons.injEq] at hrest
      obtain ⟨rfl, hys⟩ := hrest
      exact Or.inr (Or.inr ⟨cs, hys, has⟩)
  · cases cs with
    | nil =>
      simp only [List.nil_append, List.cons.injEq] at hrest
      exact Or.inl ⟨by simpa using hxs.symm, hrest.1⟩
    | cons c cs =>
      simp only [List.cons_append, List.cons.injEq] at hrest
      exact Or.inr (Or.inl (by rw [hrest.2]; simp))

/-- **Single use.** From a server with no secret pending, between two
requests authenticated presenting one path, a request handed out a fresh
secret at that path. -/
theorem fresh_between {a₀ : Authenticator} (h₀ : a₀.issued = []) {rs₁ rs₂ : List Request}
    {r₁ r₂ : Request} {user₁ user₂ path : String}
    (h₁ : ((a₀.after rs₁).serve r₁).1 = .ok (.authenticated user₁ .sameHost)) (hp₁ : r₁.Presents path)
    (h₂ : ((a₀.after (rs₁ ++ r₁ :: rs₂)).serve r₂).1 = .ok (.authenticated user₂ .sameHost))
    (hp₂ : r₂.Presents path) :
    ∃ ys rᵢ zs e, rs₂ = ys ++ rᵢ :: zs ∧ (a₀.after (rs₁ ++ r₁ :: ys)).Hands rᵢ e ∧
      Files.samePath e.path path = true := by
  obtain ⟨v, file, secret, hv, hred, -, xs, rᵢ, ys, e, hrs, hhands, hpath, -, -, -, hspares⟩ :=
    authenticated_history h₀ h₂
  -- the entry is at `path`: the two files presented by the second request are one
  obtain ⟨v₂, u₂, f₂, s₂, hv₂, hred₂, hf₂⟩ := hp₂
  rw [hv, Option.some.injEq] at hv₂
  subst hv₂
  obtain ⟨-, rfl, -⟩ := hred.unique hred₂
  have hepath : Files.samePath e.path path = true := Files.samePath_trans hpath hf₂
  -- the first request presented the entry's path, so it is not among the requests that spared it
  have hys : r₁ ∉ ys := by
    intro hmem
    rw [← map_fst_log (a₀.after (xs ++ [rᵢ])) ys] at hmem
    obtain ⟨x, hx, rfl⟩ := List.mem_map.1 hmem
    obtain ⟨v₁, u₁, f₁, s₁, hv₁, hred₁, hf₁⟩ := hp₁
    rw [Files.samePath_comm] at hepath
    exact (hspares x hx).2 ⟨v₁, u₁, f₁, s₁, hv₁, hred₁, Files.samePath_trans hf₁ hepath⟩
  rcases append_cons_eq_append_cons hrs with ⟨rfl, rfl⟩ | hmem | ⟨cs, hrs₂, rfl⟩
  · -- the first request was authenticated, so it did not hand the entry out
    have hanswer := hhands.answer
    rw [h₁, Except.ok.injEq] at hanswer
    exact absurd hanswer.symm (localChallenge_ne_authenticated _ _ _)
  · exact absurd hmem hys
  · exact ⟨cs, rᵢ, ys, e, hrs₂, hhands, hepath⟩

end Authenticator

open Authenticator in
/-- **`Local` authentication is sound and single-use.** Along any sequence
of requests to a new server:

* a request authenticated as `user` by `Local` redeems `user:file:secret`
  with a secret that is not empty, and an earlier request handed out an entry
  of `user` at a path that is `file`, with that secret, less than `ttl`
  seconds before; every request in between spared it: none got a new secret
  for `user`, none presented the path;
* with `Local` on, a request presenting a path never fails and leaves no
  entry at that path, whatever its outcome;
* between two requests authenticated presenting one path, a request handed
  out a fresh secret at that path. -/
theorem local_secret_single_use (config : AuthConfig) (seed : UInt64) :
    (∀ (rs : List Request) (r : Request) (user : String),
      (((Authenticator.new config seed).after rs).serve r).1 = .ok (.authenticated user .sameHost) →
      ∃ v file secret, r.localAuthorization = some v ∧ Redeems v user file secret ∧ secret ≠ "" ∧
        ∃ xs rᵢ ys e, rs = xs ++ rᵢ :: ys ∧ ((Authenticator.new config seed).after xs).Hands rᵢ e ∧
          Files.samePath e.path file = true ∧ e.user = user ∧ e.secret = secret ∧
          r.now - rᵢ.now < config.ttl ∧
          ∀ x ∈ ((Authenticator.new config seed).after (xs ++ [rᵢ])).log ys, Spares x e) ∧
    (∀ (a : Authenticator) (r : Request) (path : String), a.config.enabled = true →
      a.config.sameHost = true → r.Presents path →
      (∃ o, (a.serve r).1 = .ok o) ∧ ∀ e ∈ (a.serve r).2.issued, Files.samePath e.path path = false) ∧
    (∀ (rs₁ : List Request) (r₁ : Request) (rs₂ : List Request) (r₂ : Request) (user₁ user₂ path : String),
      (((Authenticator.new config seed).after rs₁).serve r₁).1 = .ok (.authenticated user₁ .sameHost) →
      r₁.Presents path →
      (((Authenticator.new config seed).after (rs₁ ++ r₁ :: rs₂)).serve r₂).1 =
        .ok (.authenticated user₂ .sameHost) →
      r₂.Presents path →
      ∃ ys rᵢ zs e, rs₂ = ys ++ rᵢ :: zs ∧
        ((Authenticator.new config seed).after (rs₁ ++ r₁ :: ys)).Hands rᵢ e ∧
        Files.samePath e.path path = true) :=
  ⟨fun _ _ _ h => authenticated_history rfl h,
    fun _ _ _ hen hsh hp => serve_presents hen hsh hp,
    fun _ _ _ _ _ _ _ h₁ hp₁ h₂ hp₂ => fresh_between rfl h₁ hp₁ h₂ hp₂⟩

end CimBroker.Auth

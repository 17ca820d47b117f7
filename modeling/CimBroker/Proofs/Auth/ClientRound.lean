import CimBroker.Auth.Client
import CimBroker.Proofs.Stream.Words

/-!
# A client's round, call after call

A client is driven by a sequence of calls: setters for user, password and
scheme, `clear` to start a new round, challenges to look at, and requests for
the credential header, each made while the file store is in some state. This
module describes such runs and shows what holds along every one of them:

* between two calls of `clear` at most one challenge is followed: following
  one sets the flag that makes every later challenge refused;
* a challenge that is not followed, refused or malformed, changes nothing;
* a client that has followed a challenge knows its realm, and a secret file
  it will read lies directly in its trusted directory, compared as paths, so
  the credential header depends on no file outside that directory;
* once the header of a followed `Local` challenge has been built, the secret
  is kept: later headers read no file and are the same, until a call starts
  a new round or changes the user or the scheme.

All of it follows from one description of what `Client.followChallenge` can
do (`Client.followChallenge_cases`) and the fact that building a header
changes only the kept secret (`Client.requestHeader_snd`). The method passes
the client along also when it fails, so that a failure leaving the client as
it was is a fact about the method and not about its type.

## Main results

* `Client.accepted_run_le` — at most one followed challenge without `clear`.
* `Client.RoundInv` — the invariant of a round, and `Client.roundInv_run`.
* `Client.requestHeader_congr` — the header reads only the secret file.
* `Client.run_keeps_secret` — a kept secret gives the same header.
* `Client.round_state_machine` — all of it together.
-/

namespace CimBroker.Auth.Client

/-! ## Calls and runs -/

/-- A call made on a client. A header is asked for while the file store is
`fs`. -/
inductive Call where
  | setCredentials (user password : String)
  | setUser (user : String)
  | setScheme (s : Scheme)
  | clear
  | check (header : String)
  | requestHeader (fs : Files.Store)
  | buildHeader (fs : Files.Store)

/-- The calls that start a new round or change who the client is or how it
answers: after them a kept header may change. -/
def Call.Intervenes : Call → Prop
  | .setCredentials _ _ | .setUser _ | .setScheme _ | .clear => True
  | .check _ | .requestHeader _ | .buildHeader _ => False

/-- What a call answers. -/
inductive Answer where
  | done
  | checked (r : Except AuthError Bool)
  | header (h : Option (String × String))
  | line (text : String)
deriving DecidableEq

/-- One call, with `login` the environment's user name: its answer and the
client after it. -/
def call (login : String) (c : Client) : Call → Answer × Client
  | .setCredentials u p => (.done, c.setCredentials u p)
  | .setUser u => (.done, c.setUser u)
  | .setScheme s => (.done, c.setScheme s)
  | .clear => (.done, c.clear)
  | .check h =>
    match followChallenge h c with
    | .ok b c' => (.checked (.ok b), c')
    | .error e c' => (.checked (.error e), c')
  | .requestHeader fs => ((c.requestHeader fs login).1 |> .header, (c.requestHeader fs login).2)
  | .buildHeader fs => ((c.buildHeader fs login).1 |> .line, (c.buildHeader fs login).2)

/-- The answers to a sequence of calls, in order, and the client after them. -/
def run (login : String) (c : Client) : List Call → List Answer × Client
  | [] => ([], c)
  | x :: xs =>
    let r := call login c x
    let rest := run login r.2 xs
    (r.1 :: rest.1, rest.2)

/-- The answer of a followed challenge. -/
def accepted : Answer := .checked (.ok true)

/-! ## What each call does -/

/-- The method with the client passed by hand: its exits in the order it
reaches them, each with the client it returns. -/
theorem followChallenge_run (c : Client) (h : String) : followChallenge h c =
    if c.challengeReceived then .ok false c
    else match Challenge.parse h with
      | .error e => .error e c
      | .ok ch => match Scheme.ofName? ch.scheme with
        | none => .error (.invalidHeader (.unknownScheme ch.scheme)) c
        | some s =>
          if s = .sameHost ∧ Files.parentIs ch.realm c.trustedDir = false then .ok false c
          else .ok true { (if s = .sameHost then { c with secretFile := some ch.realm, secret := none } else c) with
            scheme := s, realm := some ch.realm, challengeReceived := true } := by
  -- run the monad on `c`: what is left are the cases of what the method reads
  unfold followChallenge
  simp only [bind, get, getThe, MonadStateOf.get, pure, modify, modifyGet, MonadStateOf.modifyGet, ofExcept,
    throw, throwThe, MonadExceptOf.throw]
  unfold EStateM.bind EStateM.get EStateM.pure EStateM.modifyGet EStateM.throw
  dsimp only
  cases hr : c.challengeReceived with
  | true => simp
  | false =>
    cases hp : Challenge.parse h with
    | error e => simp
    | ok ch =>
      cases hs : Scheme.ofName? ch.scheme with
      | none => simp [hs]
      | some s =>
        by_cases hsame : s = .sameHost
        · subst hsame
          cases hq : Files.parentIs ch.realm c.trustedDir <;> simp [hs, hq]
        · simp [hs, hsame]

/-- **What a look at a challenge can do**: fail, or decline it, and leave the
client as it was; or, when no challenge was followed yet, follow a challenge
that reads as a known scheme, record scheme and realm, and for `Local` the
secret file, which then lies in the trusted directory. -/
theorem followChallenge_cases (c : Client) (h : String) :
    (∃ e, followChallenge h c = .error e c) ∨ followChallenge h c = .ok false c ∨
    (c.challengeReceived = false ∧ ∃ ch s, Challenge.parse h = .ok ch ∧
      Scheme.ofName? ch.scheme = some s ∧ (s = .sameHost → Files.parentIs ch.realm c.trustedDir = true) ∧
      followChallenge h c = .ok true { (if s = .sameHost then { c with secretFile := some ch.realm, secret := none } else c) with
        scheme := s, realm := some ch.realm, challengeReceived := true }) := by
  rw [followChallenge_run]
  cases hr : c.challengeReceived with
  | true => exact .inr (.inl rfl)
  | false =>
    rw [if_neg Bool.false_ne_true]
    cases hp : Challenge.parse h with
    | error e => exact .inl ⟨e, rfl⟩
    | ok ch =>
      dsimp only
      cases hs : Scheme.ofName? ch.scheme with
      | none => exact .inl ⟨_, rfl⟩
      | some s =>
        dsimp only
        by_cases hout : s = .sameHost ∧ Files.parentIs ch.realm c.trustedDir = false
        · -- a `Local` file outside the trusted directory: declined
          exact .inr (.inl (if_pos hout))
        · have hparent : s = .sameHost → Files.parentIs ch.realm c.trustedDir = true := by
            simpa using hout
          exact .inr (.inr ⟨rfl, ch, s, rfl, hs, hparent, if_neg hout⟩)

/-- **A look at a challenge, as a call**: one that is not followed leaves the
client as it was; one that is followed is the first of its round and records
scheme and realm, and for `Local` a secret file in the trusted directory. -/
theorem call_check_cases (login : String) (c : Client) (hdr : String) :
    ((call login c (.check hdr)).1 ≠ accepted ∧ (call login c (.check hdr)).2 = c) ∨
    ((call login c (.check hdr)).1 = accepted ∧ c.challengeReceived = false ∧ ∃ (ch : Challenge) (s : Scheme),
      (s = .sameHost → Files.parentIs ch.realm c.trustedDir = true) ∧
      (call login c (.check hdr)).2 = { (if s = .sameHost then { c with secretFile := some ch.realm, secret := none } else c) with
        scheme := s, realm := some ch.realm, challengeReceived := true }) := by
  rcases followChallenge_cases c hdr with ⟨e, he⟩ | hd | ⟨hfresh, ch, s, -, -, hparent, hf⟩
  · -- an unreadable header: the method fails and hands the client back
    exact .inl ⟨by simp [call, he, accepted], by simp [call, he]⟩
  · exact .inl ⟨by simp [call, hd, accepted], by simp [call, hd]⟩
  · exact .inr ⟨by simp [call, hf, accepted], hfresh, ch, s, hparent, by simp [call, hf]⟩

/-- Building a header changes only the kept secret. -/
theorem requestHeader_snd (c : Client) (fs : Files.Store) (login : String) :
    (c.requestHeader fs login).2 = { c with secret := (c.requestHeader fs login).2.secret } := by
  unfold requestHeader
  split
  · rfl
  · rfl
  · rfl
  · split <;> rfl

theorem buildHeader_snd (c : Client) (fs : Files.Store) (login : String) :
    (c.buildHeader fs login).2 = (c.requestHeader fs login).2 := by
  unfold buildHeader
  split <;> simp_all

/-- The header line is a function of the header. -/
theorem buildHeader_congr {c c' : Client} {fs fs' : Files.Store} {login : String}
    (h : c.requestHeader fs login = c'.requestHeader fs' login) : c.buildHeader fs login = c'.buildHeader fs' login := by
  unfold buildHeader
  rw [h]

/-- **A followed challenge is the first since the round started**, and its
client has one. -/
theorem accepted_call {login : String} {c : Client} {x : Call} (h : (call login c x).1 = accepted) :
    c.challengeReceived = false ∧ (call login c x).2.challengeReceived = true := by
  cases x with
  | check hdr =>
    rcases call_check_cases login c hdr with ⟨hn, -⟩ | ⟨-, hfresh, ch, s, -, hc⟩
    · exact absurd h hn
    · exact ⟨hfresh, by rw [hc]⟩
  | _ => simp [call, accepted] at h

/-- Any call but `clear` that follows no challenge leaves the flag of a
followed challenge as it was. -/
theorem challengeReceived_call {login : String} {c : Client} {x : Call} (hx : x ≠ .clear)
    (h : (call login c x).1 ≠ accepted) : (call login c x).2.challengeReceived = c.challengeReceived := by
  cases x with
  | clear => exact absurd rfl hx
  | check hdr =>
    rcases call_check_cases login c hdr with ⟨-, hc⟩ | ⟨ha, -⟩
    · rw [hc]
    · exact absurd ha h
  | requestHeader fs => simp only [call]; rw [requestHeader_snd]
  | buildHeader fs => simp only [call]; rw [buildHeader_snd, requestHeader_snd]
  | _ => rfl

/-- **At most one challenge is followed without `clear`**, and none once one
has been. The induction is on the calls. -/
theorem accepted_run_le (login : String) : ∀ (c : Client) (calls : List Call), Call.clear ∉ calls →
    (run login c calls).1.count accepted ≤ if c.challengeReceived then 0 else 1
  | c, [], _ => by simp [run]
  | c, x :: xs, hclear => by
    have hx : x ≠ .clear := fun h => hclear (h ▸ List.mem_cons_self)
    have ih := accepted_run_le login (call login c x).2 xs fun h => hclear (List.mem_cons_of_mem x h)
    simp only [run, List.count_cons, beq_iff_eq]
    by_cases ha : (call login c x).1 = accepted
    · -- this call follows a challenge, so none after it does
      obtain ⟨hfresh, hnow⟩ := accepted_call ha
      rw [hnow, if_pos rfl] at ih
      simp [ha, hfresh]
      omega
    · rw [challengeReceived_call hx ha] at ih
      simp [ha, ih]

/-- A challenge that is not followed changes nothing. -/
theorem call_check_refused {login : String} {c : Client} {hdr : String} (h : (call login c (.check hdr)).1 ≠ accepted) :
    (call login c (.check hdr)).2 = c := by
  rcases call_check_cases login c hdr with ⟨-, hc⟩ | ⟨ha, -⟩
  · exact hc
  · exact absurd ha h

/-! ## The invariant of a round -/

/-- What holds of a client with trusted directory `D` at every point of a
run: the directory stays, a followed challenge has left its realm, and a
secret file to read lies directly in `D`, compared as paths. -/
structure RoundInv (D : String) (c : Client) : Prop where
  trustedDir_eq : c.trustedDir = D
  realm_of_challenge : c.challengeReceived = true → c.realm.isSome
  secretFile_parent : ∀ f, c.secretFile = some f → Files.parentIs f D = true

theorem roundInv_new (D : String) : RoundInv D (new D) where
  trustedDir_eq := rfl
  realm_of_challenge := by simp [new]
  secretFile_parent := by simp [new]

/-- A header request keeps the invariant: it changes only the kept secret. -/
theorem RoundInv.requestHeader {D login : String} {c : Client} (h : RoundInv D c) (fs : Files.Store) :
    RoundInv D (c.requestHeader fs login).2 := by
  rw [requestHeader_snd]
  exact ⟨h.trustedDir_eq, h.realm_of_challenge, h.secretFile_parent⟩

/-- **Every call keeps the invariant.** A followed challenge records its
realm, and for `Local` a file that the check placed in the trusted
directory. -/
theorem RoundInv.call {D login : String} {c : Client} (h : RoundInv D c) (x : Call) :
    RoundInv D (call login c x).2 := by
  cases x with
  | setCredentials u p => exact ⟨h.trustedDir_eq, h.realm_of_challenge, h.secretFile_parent⟩
  | setUser u => exact ⟨h.trustedDir_eq, h.realm_of_challenge, h.secretFile_parent⟩
  | setScheme s => exact ⟨h.trustedDir_eq, h.realm_of_challenge, h.secretFile_parent⟩
  | clear => exact ⟨h.trustedDir_eq, by simp [Client.call, Client.clear], by simp [Client.call, Client.clear]⟩
  | check hdr =>
    rcases call_check_cases login c hdr with ⟨-, hc⟩ | ⟨-, -, ch, s, hparent, hc⟩
    · rw [hc]
      exact h
    · rw [hc]
      refine ⟨by split <;> exact h.trustedDir_eq, by simp, fun f hf => ?_⟩
      by_cases hs : s = .sameHost
      · -- the file of a followed `Local` challenge passed the check
        simp only [hs, if_true, Option.some.injEq] at hf
        subst hf
        exact h.trustedDir_eq ▸ hparent hs
      · simp only [hs, if_false] at hf
        exact h.secretFile_parent f hf
  | requestHeader fs => exact h.requestHeader fs
  | buildHeader fs =>
    simp only [Client.call]
    rw [buildHeader_snd]
    exact h.requestHeader fs

/-- **The invariant holds after every run.** The induction is on the
calls. -/
theorem RoundInv.run {D login : String} : ∀ {c : Client} (calls : List Call), RoundInv D c →
    RoundInv D (run login c calls).2
  | _, [], h => h
  | _, x :: xs, h => RoundInv.run xs (h.call x)

/-! ## What a header reads -/

/-- **The header reads only the secret file**: two stores that agree on it
give the same header. -/
theorem requestHeader_congr {c : Client} {fs fs' : Files.Store} (login : String)
    (h : ∀ f, c.secretFile = some f → fs.readRegular f = fs'.readRegular f) :
    c.requestHeader fs login = c.requestHeader fs' login := by
  unfold requestHeader
  split
  · rfl
  · rfl
  · rfl
  · split
    · rename_i file _ hf
      simp [readSecret, h file hf]
    · rfl

/-- Once read, the secret of a followed `Local` challenge is kept: the
header is built from it, whatever the store, and the client stays as it
is. -/
theorem requestHeader_of_kept {c : Client} {f s : String} (hs : c.scheme = .sameHost)
    (hr : c.challengeReceived = true) (hf : c.secretFile = some f) (hk : c.secret = some s)
    (fs : Files.Store) (login : String) :
    c.requestHeader fs login =
      (some (localAuthorizationHeader, "Local \"" ++ c.user.getD login ++ ":" ++ f ++ ":" ++ s ++ "\""), c) := by
  obtain ⟨sc, cr, user, password, realm, dir, file, secret⟩ := c
  simp only at hs hr hf hk
  subst hs hr hf hk
  simp [requestHeader]

/-- The first header of a followed `Local` challenge keeps the secret it
read, and the scheme, the flag and the file stay. -/
theorem kept_requestHeader {c : Client} {f : String} (hs : c.scheme = .sameHost)
    (hr : c.challengeReceived = true) (hf : c.secretFile = some f) (fs : Files.Store) (login : String) :
    (c.requestHeader fs login).2.scheme = .sameHost ∧ (c.requestHeader fs login).2.challengeReceived = true ∧
      (c.requestHeader fs login).2.secretFile = some f ∧ ∃ s, (c.requestHeader fs login).2.secret = some s := by
  simp [requestHeader, hs, hr, hf]

/-- **A kept secret freezes the round**: calls that start no new round and
change neither user nor scheme leave the client as it is. The induction is
on the calls. -/
theorem run_keeps_secret {login : String} {c : Client} {f s : String} (hs : c.scheme = .sameHost)
    (hr : c.challengeReceived = true) (hf : c.secretFile = some f) (hk : c.secret = some s) :
    ∀ calls : List Call, (∀ x ∈ calls, ¬ x.Intervenes) → (run login c calls).2 = c
  | [], _ => rfl
  | x :: xs, hcalls => by
    have hx : (call login c x).2 = c := by
      cases x with
      | check hdr => simp [call, followChallenge_run, hr]
      | requestHeader fs => simp [call, requestHeader_of_kept hs hr hf hk fs login]
      | buildHeader fs => simp [call, buildHeader_snd, requestHeader_of_kept hs hr hf hk fs login]
      | _ => exact absurd trivial (hcalls _ List.mem_cons_self)
    simp only [run]
    rw [hx]
    exact run_keeps_secret hs hr hf hk xs fun y hy => hcalls y (List.mem_cons_of_mem x hy)

/-- After the first header of a followed `Local` challenge, a header request
gives that header again, whatever the store. -/
theorem requestHeader_requestHeader {c : Client} {f : String} (hs : c.scheme = .sameHost)
    (hr : c.challengeReceived = true) (hf : c.secretFile = some f) (fs fs' : Files.Store) (login : String) :
    (c.requestHeader fs login).2.requestHeader fs' login = c.requestHeader fs login := by
  obtain ⟨hs₁, hr₁, hf₁, s, hk₁⟩ := kept_requestHeader hs hr hf fs login
  rw [requestHeader_of_kept hs₁ hr₁ hf₁ hk₁ fs' login]
  obtain ⟨sc, cr, user, password, realm, dir, file, secret⟩ := c
  simp only at hs hr hf
  subst hs hr hf
  simp only [requestHeader, Option.some.injEq] at hk₁ ⊢
  rw [← hk₁]

/-! ## The round -/

/-- **The client's round as a state machine.** Along every sequence of calls:
at most one challenge is followed between two calls of `clear`; a challenge
that is not followed changes nothing; a client of trusted directory `D` that
has followed a challenge knows its realm, and a secret file it will read lies
directly in `D`, so its header reads no file elsewhere; and once the header
of a followed `Local` challenge has been built, calls that start no new round
and change neither user nor scheme leave the client as it is, and it answers
every header request with that header, whatever the files. -/
theorem round_state_machine (D login : String) :
    (∀ (c : Client) (calls : List Call), Call.clear ∉ calls → (run login c calls).1.count accepted ≤ 1) ∧
    (∀ (c : Client) (h : String), (call login c (.check h)).1 ≠ accepted → (call login c (.check h)).2 = c) ∧
    (∀ calls : List Call,
      ((run login (new D) calls).2.challengeReceived = true → (run login (new D) calls).2.realm.isSome) ∧
      (∀ f, (run login (new D) calls).2.secretFile = some f → Files.parentIs f D = true) ∧
      ∀ fs fs' : Files.Store, (∀ p, Files.parentIs p D = true → fs.readRegular p = fs'.readRegular p) →
        (run login (new D) calls).2.requestHeader fs login = (run login (new D) calls).2.requestHeader fs' login) ∧
    (∀ (c : Client) (f : String) (fs : Files.Store), c.scheme = .sameHost → c.challengeReceived = true →
      c.secretFile = some f → ∀ calls : List Call, (∀ x ∈ calls, ¬ x.Intervenes) →
        (run login (c.requestHeader fs login).2 calls).2 = (c.requestHeader fs login).2 ∧
        ∀ fs' : Files.Store, (c.requestHeader fs login).2.requestHeader fs' login = c.requestHeader fs login ∧
          (c.requestHeader fs login).2.buildHeader fs' login = c.buildHeader fs login) := by
  refine ⟨fun c calls hclear => ?_, fun c h => call_check_refused, fun calls => ?_, ?_⟩
  · have := accepted_run_le login c calls hclear
    split at this <;> omega
  · -- the invariant of a round, from a fresh client
    have hinv : RoundInv D (run login (new D) calls).2 := RoundInv.run calls (roundInv_new D)
    refine ⟨hinv.realm_of_challenge, hinv.secretFile_parent, fun fs fs' hagree => ?_⟩
    exact requestHeader_congr login fun f hf => hagree f (hinv.secretFile_parent f hf)
  · intro c f fs hs hr hf calls hcalls
    obtain ⟨hs₁, hr₁, hf₁, s, hk₁⟩ := kept_requestHeader hs hr hf fs login
    have hagain := requestHeader_requestHeader hs hr hf fs
    exact ⟨run_keeps_secret hs₁ hr₁ hf₁ hk₁ calls hcalls, fun fs' =>
      ⟨hagain fs' login, buildHeader_congr (hagain fs' login)⟩⟩

end CimBroker.Auth.Client

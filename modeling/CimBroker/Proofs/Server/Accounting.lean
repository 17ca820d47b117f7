import Mathlib
import CimBroker.Server.Http
import CimBroker.Proofs.Stream.DecodeFailure

/-!
# Request accounting

A server counts what happens to the `/cimom` requests it handles: every
request and its body bytes; whether its authentication accepted the
caller, challenged it or refused it; a body from an accepted caller that
does not decode; and the bytes of each stream it answers. A request leaves
the handler through one of several exits, and each exit bumps its own
counters before it answers.

This module follows a run of requests, each at its own time, through one
server. The run is recorded as a list of exchanges: the request, what its
authentication returned, and the response. The counters after the run
account for the exchanges (`Accounts`): one request and its body bytes each,
one outcome for each request whose authentication returned one, one decode
failure for each accepted body that does not decode, and the bytes of every
`200` answer. The counters are 64-bit words, so each of these identities
holds in their arithmetic, modulo `2 ^ 64`: a total that reaches `2 ^ 64`
starts again from zero (`requests_counter_wraps`), and below it a counter is
the exact count. Each response tells its own exchange (`Exchange.Answered`):
a `200` answer exactly for an accepted caller whose body decodes and is
written back, and a `401` answer with a challenge exactly when the caller
was challenged.

One step of the handler (`Router.cimom_step`) says all of it for one
request: the counters go as `Exchange.tally` says, and the response answers
the exchange. The run follows by induction on the requests.

## Main results

* `Router.cimom_step` — one request, counted and answered.
* `accounts_foldl_tally` — counters that tally each exchange account for
  the run.
* `cimom_request_accounting` — what the counters and the responses of every
  run say.
* `requests_counter_wraps` — the count of requests wraps after `2 ^ 64`.
-/

namespace CimBroker.Stream

@[simp] theorem Except.isOk_ok {ε α : Type} (a : α) : (Except.ok a : Except ε α).isOk = true := rfl

@[simp] theorem Except.isOk_error {ε α : Type} (e : ε) : (Except.error e : Except ε α).isOk = false := rfl

/-- **The decoder refuses only malformed input.** Whatever it is given, as
long as there is room below a 64-bit size for an instance's free bytes, an
error of the decoder is a decode failure. -/
theorem onlyDecodeFailures_deserialize {data : List UInt8} (hdata : data.length + instanceSlack ≤ maxU64)
    (a : Arena) : OnlyDecodeFailures (deserialize data a) := by
  simp only [deserialize]
  refine onlyDecodeFailures_bind (onlyDecodeFailures_readFront (by omega)) ?_
  rintro ⟨classes, entries, refs, r⟩ hfront
  have hleft := readFront_remaining hfront
  refine onlyDecodeFailures_bind (onlyDecodeFailures_readInstances _ _ _ _ _ _ _ _ _ _ (by dsimp only; omega)) ?_
  rintro ⟨decoded, marks, r'⟩ -
  exact onlyDecodeFailures_ite rfl (onlyDecodeFailures_ok _)

end CimBroker.Stream

namespace CimBroker.Server

open CimBroker.Stream

/-! ## Exchanges -/

/-- What the authenticator of `r` returns for the credential headers of
`req` at time `now`, with file store `fs`. -/
def Router.verdict (r : Router) (fs : Files.Store) (now : Nat) (req : Request) :
    Except Auth.AuthError (Auth.Outcome × Auth.Authenticator × Files.Store) :=
  r.auth.authenticate fs now (headerValue req.headers Auth.authorizationHeader)
    (headerValue req.headers Auth.localAuthorizationHeader)

/-- A `/cimom` request as the server handled it: the request, what its
authentication returned, and the response. -/
structure Exchange where
  request : Request
  auth : Except Auth.AuthError Auth.Outcome
  response : Response

@[simp] theorem textResponse_status (status : Nat) (s : String) : (textResponse status s).status = status := rfl

@[simp] theorem textResponse_wwwAuthenticate (status : Nat) (s : String) :
    (textResponse status s).wwwAuthenticate = none := rfl

@[simp] theorem textResponse_payload (status : Nat) (s : String) : (textResponse status s).payload = .text s := rfl

/-- The bytes of an octet-stream body; other bodies carry none. -/
@[simp] def Payload.octetLength : Payload → Nat
  | .octets bs => bs.length
  | _ => 0

namespace Exchange

/-- Authentication returned an error. -/
@[simp] def authFailed (x : Exchange) : Bool :=
  match x.auth with
  | .error _ => true
  | .ok _ => false

/-- Authentication accepted the caller. -/
@[simp] def authenticated (x : Exchange) : Bool :=
  match x.auth with
  | .ok (.authenticated _ _) => true
  | _ => false

/-- Authentication challenged the caller. -/
@[simp] def challenged (x : Exchange) : Bool :=
  match x.auth with
  | .ok (.challenge _) => true
  | _ => false

/-- Authentication refused the caller. -/
@[simp] def denied (x : Exchange) : Bool :=
  match x.auth with
  | .ok .denied => true
  | _ => false

/-- The body does not decode. -/
@[simp] def malformed (x : Exchange) : Bool := !(deserialize x.request.body Arena.empty).isOk

/-- The body bytes of a `200` answer. -/
@[simp] def bytesOut (x : Exchange) : Nat := if x.response.status = 200 then x.response.payload.octetLength else 0

/-- The counters `s` with the exchange `x` counted: one request and its
body bytes, the outcome its authentication returned, a body that does not
decode from an accepted caller, and the bytes of a `200` answer, each added
as a 64-bit word. -/
@[simp] def tally (s : Stats) (x : Exchange) : Stats where
  requests := s.requests + 1
  authenticated := s.authenticated + if x.authenticated then 1 else 0
  challenges := s.challenges + if x.challenged then 1 else 0
  denied := s.denied + if x.denied then 1 else 0
  decodeFailures := s.decodeFailures + if x.authenticated && x.malformed then 1 else 0
  bytesIn := s.bytesIn + x.request.body.length.toUInt64
  bytesOut := s.bytesOut + x.bytesOut.toUInt64

/-- What the response of an exchange says of it. -/
structure Answered (x : Exchange) : Prop where
  /-- `200` exactly for an accepted caller whose body decodes and is written
  back, with the stream written as its body. -/
  ok : x.response.status = 200 ↔ x.authenticated = true ∧ ∃ tops A out,
    deserialize x.request.body Arena.empty = .ok (tops, A) ∧ serialize A tops = .ok out ∧
      x.response.payload = .octets out
  /-- A `401` carries a challenge exactly when authentication challenged
  the caller, and it is that challenge. -/
  unauthorized : x.response.status = 401 →
    ∀ v, x.response.wwwAuthenticate = some v ↔ x.auth = .ok (.challenge v)

/-- Authentication either returned an error or one of three outcomes. -/
theorem outcome_count (x : Exchange) :
    ((if x.authenticated then 1 else 0) + (if x.challenged then 1 else 0) + (if x.denied then 1 else 0) +
      if x.authFailed then 1 else 0 : UInt64) = 1 := by
  rcases x with ⟨req, auth, resp⟩
  rcases auth with e | (⟨user, scheme⟩ | v | _) <;> rfl

end Exchange

/-- The exchange of request `req` at time `now` with the server `r` and the
files `fs`. -/
def Router.exchange (r : Router) (fs : Files.Store) (now : Nat) (req : Request) : Exchange :=
  ⟨req, (r.verdict fs now req).map (·.1), (r.cimom fs now req).1⟩

/-- Serves `/cimom` requests one after another, each at its time: the
exchanges in order, and the server and the files after them. -/
def Router.serveCimom (r : Router) (fs : Files.Store) : List (Nat × Request) → List Exchange × Router × Files.Store
  | [] => ([], r, fs)
  | q :: qs =>
    let step := r.cimom fs q.1 q.2
    let rest := step.2.1.serveCimom step.2.2 qs
    (r.exchange fs q.1 q.2 :: rest.1, rest.2)

/-! ## One request -/

variable {r : Router} {fs : Files.Store} {now : Nat} {req : Request}

/-- **One request, counted and answered.** A request that reaches the
handler leaves the configuration as it was, changes the counters as
`Exchange.tally` counts its exchange, and is answered as `Exchange.Answered`
says. A body in memory is shorter than `2 ^ 63` bytes, so every body the
decoder refuses is refused as malformed. -/
theorem Router.cimom_step (hlimit : req.body.length ≤ r.config.maxPayloadSize) (hsize : req.body.length < 2 ^ 63) :
    (r.cimom fs now req).2.1.config = r.config ∧
      (r.cimom fs now req).2.1.stats = (r.exchange fs now req).tally r.stats ∧
      (r.exchange fs now req).Answered := by
  have hmalformed : OnlyDecodeFailures (deserialize req.body Arena.empty) :=
    onlyDecodeFailures_deserialize (by simp only [instanceSlack, maxU64]; omega) _
  simp only [Router.exchange, Router.verdict, Router.cimom, if_neg (Nat.not_lt.2 hlimit)]
  cases hv : r.auth.authenticate fs now (headerValue req.headers Auth.authorizationHeader)
      (headerValue req.headers Auth.localAuthorizationHeader) with
  | error e =>
    -- only the request is counted, and the answer is a server error
    exact ⟨rfl, by simp, by simp, by simp⟩
  | ok res =>
    obtain ⟨o, a, fs'⟩ := res
    cases o with
    | challenge v =>
      dsimp only
      by_cases hheader : isHeaderValue v = true
      · -- a challenge that can be sent is answered 401 with it
        rw [if_pos hheader]
        exact ⟨rfl, by simp, by simp, by simp⟩
      · -- one that cannot is a server error
        rw [if_neg hheader]
        exact ⟨rfl, by simp, by simp, by simp⟩
    | denied => exact ⟨rfl, by simp, by simp, by simp⟩
    | authenticated user scheme =>
      cases hd : deserialize req.body Arena.empty with
      | error e =>
        -- the decoder refuses only malformed bodies, and they are answered 400
        dsimp only
        rw [if_pos (hmalformed e hd)]
        exact ⟨rfl, by simp [hd], by simp [hd], by simp⟩
      | ok p =>
        obtain ⟨tops, A⟩ := p
        dsimp only
        cases hs : serialize A tops with
        | error e =>
          -- a graph that cannot be written back is a server error
          exact ⟨rfl, by simp [hd], by simp [hd], by simp⟩
        | ok out =>
          -- the echo: 200 with the stream written back
          exact ⟨rfl, by simp [hd], by simp [hd, hs], by simp⟩

/-! ## Runs -/

/-- The counters `s'` account for the exchanges `log` on top of the
counters `s`, in the counters' 64-bit arithmetic. -/
structure Accounts (s : Stats) (log : List Exchange) (s' : Stats) : Prop where
  /-- One request per exchange. -/
  requests : s'.requests = s.requests + log.length.toUInt64
  /-- The bytes of the request bodies. -/
  bytesIn : s'.bytesIn = s.bytesIn + (log.map fun (x : Exchange) => x.request.body.length).sum.toUInt64
  /-- One outcome for each exchange but those whose authentication
  returned an error: outcomes and errors together count the requests. -/
  outcomes : s'.authenticated + s'.challenges + s'.denied + (log.countP (·.authFailed)).toUInt64 =
    s.authenticated + s.challenges + s.denied + log.length.toUInt64
  /-- One decode failure for each body from an accepted caller that does
  not decode. -/
  decodeFailures : s'.decodeFailures =
    s.decodeFailures + (log.countP fun x => x.authenticated && x.malformed).toUInt64
  /-- The body bytes of the `200` answers. -/
  bytesOut : s'.bytesOut =
    s.bytesOut + ((log.filter fun (x : Exchange) => x.response.status = 200).map fun (x : Exchange) => x.response.payload.octetLength).sum.toUInt64

/-- A count of one or none, as a word. -/
@[simp] theorem toUInt64_ite (b : Bool) : (if b then 1 else 0 : Nat).toUInt64 = if b then 1 else 0 := by
  cases b <;> rfl

/-- Adding `m` to a counter and then `n` adds `n + m`, as words. -/
theorem add_toUInt64_add (c : UInt64) (m n : Nat) : c + m.toUInt64 + n.toUInt64 = c + (n + m).toUInt64 := by
  rw [show (n + m).toUInt64 = n.toUInt64 + m.toUInt64 from UInt64.ofNat_add n m]
  ac_rfl

/-- **Tallying each exchange accounts for all of them.** The induction is
on the exchanges, with the counters they start from generalised. -/
theorem accounts_foldl_tally (s : Stats) (log : List Exchange) : Accounts s log (log.foldl Exchange.tally s) := by
  induction log generalizing s with
  | nil => exact ⟨by simp, by simp, by simp, by simp, by simp⟩
  | cons x log ih =>
    obtain ⟨hreq, hin, hout, hdec, hbytes⟩ := ih (Exchange.tally s x)
    rw [List.foldl_cons]
    refine ⟨?_, ?_, ?_, ?_, ?_⟩
    · rw [hreq, List.length_cons]
      exact add_toUInt64_add s.requests 1 log.length
    · rw [hin, List.map_cons, List.sum_cons, Nat.add_comm]
      exact add_toUInt64_add s.bytesIn _ _
    · -- the exchange adds one outcome unless its authentication failed
      have hone := x.outcome_count
      generalize log.foldl Exchange.tally (Exchange.tally s x) = t at hout ⊢
      simp only [Exchange.tally] at hout
      rw [List.length_cons, List.countP_cons, ← add_toUInt64_add, ← add_toUInt64_add, toUInt64_ite]
      grind
    · rw [hdec, List.countP_cons]
      simp only [Exchange.tally]
      rw [← toUInt64_ite]
      exact add_toUInt64_add s.decodeFailures _ _
    · -- the exchange adds its body bytes when it was answered 200
      rw [hbytes, List.filter_cons]
      by_cases h200 : x.response.status = 200
      · simp only [h200, decide_true, if_true, List.map_cons, List.sum_cons, Exchange.tally, Exchange.bytesOut]
        rw [Nat.add_comm]
        exact add_toUInt64_add s.bytesOut _ _
      · simp [h200, Exchange.tally]

/-- What a run of `/cimom` requests `reqs` from the server `r` and the
files `fs` shows: one exchange for each request, in order; counters that
account for the exchanges; and responses that tell them. -/
structure RunAccounted (r : Router) (fs : Files.Store) (reqs : List (Nat × Request)) : Prop where
  requests : (r.serveCimom fs reqs).1.map (·.request) = reqs.map (·.2)
  accounts : Accounts r.stats (r.serveCimom fs reqs).1 (r.serveCimom fs reqs).2.1.stats
  answered : ∀ x ∈ (r.serveCimom fs reqs).1, x.Answered

/-- A run tallies its exchanges. The induction is on the requests, with the
server and the files they meet generalised; each step is `Router.cimom_step`,
which also keeps the payload limit for the requests after it. -/
theorem Router.serveCimom_tally {reqs : List (Nat × Request)}
    (hlimit : ∀ q ∈ reqs, q.2.body.length ≤ r.config.maxPayloadSize) (hsize : ∀ q ∈ reqs, q.2.body.length < 2 ^ 63) :
    (r.serveCimom fs reqs).1.map (·.request) = reqs.map (·.2) ∧
      (r.serveCimom fs reqs).2.1.stats = (r.serveCimom fs reqs).1.foldl Exchange.tally r.stats ∧
      ∀ x ∈ (r.serveCimom fs reqs).1, x.Answered := by
  induction reqs generalizing r fs with
  | nil => exact ⟨rfl, rfl, by simp [Router.serveCimom]⟩
  | cons q qs ih =>
    obtain ⟨hconfig, hstats, hanswered⟩ :=
      @Router.cimom_step r fs q.1 q.2 (hlimit q List.mem_cons_self) (hsize q List.mem_cons_self)
    obtain ⟨hreqs, hrest, hall⟩ := @ih (r.cimom fs q.1 q.2).2.1 (r.cimom fs q.1 q.2).2.2
      (fun q' hq' => hconfig ▸ hlimit q' (List.mem_cons_of_mem q hq'))
      (fun q' hq' => hsize q' (List.mem_cons_of_mem q hq'))
    refine ⟨?_, ?_, ?_⟩
    · simp only [Router.serveCimom, List.map_cons, hreqs]
      rfl
    · simp only [Router.serveCimom, List.foldl_cons, hrest, hstats]
    · simp only [Router.serveCimom, List.mem_cons]
      rintro x (rfl | hx)
      · exact hanswered
      · exact hall x hx

/-- **Request accounting.** Run any sequence of `/cimom` requests that reach
the handler, each at its time, through a server in any state. Then the
counters after the run, against those before it and as 64-bit words, count
one request per request and the bytes of their bodies; one authentication
outcome (accepted, challenged or refused) per request whose authentication
did not return an error; one decode failure per body from an accepted caller
that the decoder rejects; and the body bytes of the `200` answers. A
response is `200` exactly for an accepted caller whose body decodes and is
written back, and a `401` response carries a `WWW-Authenticate` header
exactly when the caller was challenged, with that challenge. A body in
memory is shorter than `2 ^ 63` bytes. -/
theorem cimom_request_accounting {r : Router} {fs : Files.Store} {reqs : List (Nat × Request)}
    (hlimit : ∀ q ∈ reqs, q.2.body.length ≤ r.config.maxPayloadSize) (hsize : ∀ q ∈ reqs, q.2.body.length < 2 ^ 63) :
    RunAccounted r fs reqs := by
  obtain ⟨hreqs, hstats, hanswered⟩ := @Router.serveCimom_tally r fs reqs hlimit hsize
  exact ⟨hreqs, hstats ▸ accounts_foldl_tally r.stats _, hanswered⟩

/-- A server with the default configuration, which lets every caller in,
given an empty body and then a body that is only the stream's magic. -/
theorem cimom_request_accounting_default :
    ((∀ q ∈ [(0, ({} : Request)), (1, { body := [67, 73, 77, 83] })],
        q.2.body.length ≤ (Router.new {} 0).config.maxPayloadSize) ∧
      ∀ q ∈ [(0, ({} : Request)), (1, { body := [67, 73, 77, 83] })], q.2.body.length < 2 ^ 63) ∧
    RunAccounted (Router.new {} 0) {} [(0, {}), (1, { body := [67, 73, 77, 83] })] :=
  ⟨⟨by decide, by decide⟩, cimom_request_accounting (by decide) (by decide)⟩

/-- The counters are 64-bit words: a server that starts from zero and
handles `2 ^ 64` requests with empty bodies counts none of them. -/
theorem requests_counter_wraps :
    ((Router.new {} 0).serveCimom {} (List.replicate (2 ^ 64) (0, {}))).1.length = 2 ^ 64 ∧
      ((Router.new {} 0).serveCimom {} (List.replicate (2 ^ 64) (0, {}))).2.1.stats.requests = 0 := by
  have hempty : ∀ q ∈ List.replicate (2 ^ 64) ((0, {}) : Nat × Request), q.2.body.length = 0 := by
    intro q hq
    rw [List.eq_of_mem_replicate hq]
    rfl
  obtain ⟨hreqs, hstats, -⟩ := @Router.serveCimom_tally (Router.new {} 0) {} _
    (fun q hq => by simp [hempty q hq]) (fun q hq => by simp [hempty q hq])
  have hlength : ((Router.new {} 0).serveCimom {} (List.replicate (2 ^ 64) (0, {}))).1.length = 2 ^ 64 := by
    have h := congrArg List.length hreqs
    rwa [List.length_map, List.length_map, List.length_replicate] at h
  refine ⟨hlength, ?_⟩
  -- the count of requests is `2 ^ 64` as a word, which is zero
  rw [hstats, (accounts_foldl_tally _ _).requests, hlength]
  decide

end CimBroker.Server

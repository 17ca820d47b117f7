import CimBroker.Server.Http
import CimBroker.Proofs.Stream.Chain

/-!
# The object-stream echo

The `/cimom` handler of the server decodes each request body into an empty
arena and answers with the stream written from the top-level instances it
decoded. The decoder accepts any graph whose references point back, however
deep; the writer visits each top-level instance with a budget of
`maxReferenceDepth + 1` levels. So the echo answers a well-formed payload
exactly when the payload's reference chains fit that budget:

* `cimom_echoes` — a request within the payload limit, shorter than 32 GiB,
  whose caller is authenticated and whose body decodes to a graph with no
  reference chain from a top-level instance longer than `maxReferenceDepth`,
  is answered `200` with a stream that decodes to an isomorphic graph with
  the same top-level instances;
* `cimom_refuses_deep_chain` — and the depth condition cannot be dropped: the
  stream of a chain of `maxReferenceDepth + 2` instances decodes, and is
  answered with a server error.
-/

namespace CimBroker.Server

open CimBroker.Stream

/-- A request whose caller the router's authenticator accepts, at time
`now` with file store `fs`. -/
def Router.Authenticates (r : Router) (fs : Files.Store) (now : Nat) (req : Request) : Prop :=
  ∃ user scheme auth fs', r.auth.authenticate fs now (headerValue req.headers Auth.authorizationHeader)
    (headerValue req.headers Auth.localAuthorizationHeader) = .ok (.authenticated user scheme, auth, fs')

variable {r : Router} {fs : Files.Store} {now : Nat} {req : Request} {tops : List InstanceId} {A : Arena}

/-- **The echo's answer to a decoded payload** within the limit, from an
authenticated caller, when the writer succeeds: the stream written. -/
theorem Router.cimom_of_serialize_ok (hlimit : req.body.length ≤ r.config.maxPayloadSize)
    (hauth : r.Authenticates fs now req) (hdec : deserialize req.body Arena.empty = .ok (tops, A))
    {out : List UInt8} (hser : serialize A tops = .ok out) :
    (r.cimom fs now req).1 = { status := 200, contentType := some "application/octet-stream", payload := .octets out } := by
  obtain ⟨user, scheme, auth, fs', hauth⟩ := hauth
  simp [Router.cimom, Nat.not_lt.2 hlimit, hauth, hdec, hser]

/-- The echo's answer when the writer refuses what was decoded: a server
error. -/
theorem Router.cimom_of_serialize_error (hlimit : req.body.length ≤ r.config.maxPayloadSize)
    (hauth : r.Authenticates fs now req) (hdec : deserialize req.body Arena.empty = .ok (tops, A))
    {e : StreamError} (hser : serialize A tops = .error e) :
    (r.cimom fs now req).1 = textResponse 500 "Internal server error" := by
  obtain ⟨user, scheme, auth, fs', hauth⟩ := hauth
  simp [Router.cimom, Nat.not_lt.2 hlimit, hauth, hdec, hser]

/-- **The echo answers every well-formed payload within its limits.** A
`/cimom` request within the payload limit and shorter than 32 GiB, whose
caller is authenticated and whose body decodes to a graph in which no chain
of references from a top-level instance is longer than `maxReferenceDepth`,
is answered `200` with an object stream; that stream decodes to a graph
isomorphic to the one decoded from the request (the same class shapes and
class sharing, host names, namespaces, values and references) whose
top-level instances are the images of the request's, in the same order. -/
theorem cimom_echoes (hlimit : req.body.length ≤ r.config.maxPayloadSize) (hsize : req.body.length < 2 ^ 35)
    (hauth : r.Authenticates fs now req) (hdec : deserialize req.body Arena.empty = .ok (tops, A))
    (hdepth : ∀ x ∈ tops, ∀ n, A.RefPath x n → n ≤ maxReferenceDepth) :
    ∃ out tops' A' φ,
      (r.cimom fs now req).1 = { status := 200, contentType := some "application/octet-stream", payload := .octets out } ∧
      deserialize out Arena.empty = .ok (tops', A') ∧ A.GraphIso A' φ ∧ tops' = tops.map φ := by
  obtain ⟨out, tops', A', φ, hser, hdes, hiso, htops⟩ := reencode_graphIso hdec hsize hdepth
  exact ⟨out, tops', A', φ, Router.cimom_of_serialize_ok hlimit hauth hdec hser, hdes, hiso, htops⟩

/-- A stream of a disk referencing its system, written by the arena
operations, is echoed by a server with the default configuration. -/
theorem cimom_echoes_disk :
    ∃ body, (do
        let c ← ClassRecord.new "Disk" "root/cimv2" ["Size"]
        let (sys, a) ← (Arena.empty.addClass c).2.addInstance ⟨0⟩ 0
        let (d, a) ← a.addInstance ⟨0⟩ 1
        let a ← a.setReference d 0 (some sys)
        serialize a [d]) = .ok body ∧
      ∃ tops A, deserialize body Arena.empty = .ok (tops, A) ∧ ∃ out tops' A' φ,
        ((Router.new {} 0).cimom {} 0 { body }).1 =
          { status := 200, contentType := some "application/octet-stream", payload := .octets out } ∧
        deserialize out Arena.empty = .ok (tops', A') ∧ A.GraphIso A' φ ∧ tops' = tops.map φ := by
  -- the kernel writes the stream and checks that it is short and decodes
  obtain ⟨⟨body, tops, A⟩, h⟩ := Except.exists_eq_ok_of_isOk (do
      let c ← ClassRecord.new "Disk" "root/cimv2" ["Size"]
      let sys ← (Arena.empty.addClass c).2.addInstance ⟨0⟩ 0
      let disk ← sys.2.addInstance ⟨0⟩ 1
      let a ← disk.2.setReference disk.1 0 (some sys.1)
      let body ← serialize a [disk.1]
      if body.length ≤ slotSize * (maxReferenceDepth + 1) then
        let decoded ← deserialize body Arena.empty
        pure (body, decoded)
      else throw (.countOverflow body.length)) (by decide +kernel)
  obtain ⟨c, hc, h⟩ := Except.bind_eq_ok.1 h
  obtain ⟨⟨sys, a₁⟩, h₁, h⟩ := Except.bind_eq_ok.1 h
  obtain ⟨⟨d, a₂⟩, h₂, h⟩ := Except.bind_eq_ok.1 h
  dsimp only at h₂ h
  obtain ⟨a₃, h₃, h⟩ := Except.bind_eq_ok.1 h
  obtain ⟨body', hbody, h⟩ := Except.bind_eq_ok.1 h
  split at h
  · rename_i hshort
    obtain ⟨⟨tops', A'⟩, hdec, h⟩ := Except.bind_eq_ok.1 h
    cases h
    have hser : (do
        let c ← ClassRecord.new "Disk" "root/cimv2" ["Size"]
        let (sys, a) ← (Arena.empty.addClass c).2.addInstance ⟨0⟩ 0
        let (d, a) ← a.addInstance ⟨0⟩ 1
        let a ← a.setReference d 0 (some sys)
        serialize a [d]) = .ok body := by
      simp only [hc, h₁, h₂, h₃, hbody, Except.ok_bind]
    have hbound : slotSize * (maxReferenceDepth + 1) ≤ 2 ^ 24 := by decide
    refine ⟨body, hser, tops, A, hdec, cimom_echoes (show body.length ≤ 16777216 by omega)
      (show body.length < 2 ^ 35 by omega) ⟨_, _, _, _, rfl⟩ hdec ?_⟩
    -- the stream is too short for a chain deeper than the budget
    intro x hx n hp
    have := refPath_le_of_deserialize_empty hdec hx hp
    simp only [slotSize] at this hshort
    omega
  · cases h

/-- **The echo does not answer every well-formed payload.** Reading "every
well-formed payload within the payload limit, from an authenticated
caller, is answered 200" is refuted by the stream of a chain of
`maxReferenceDepth + 2` instances (`chainStream`), sent to a server whose
limit is that stream's length: the stream decodes, but the server answers
with an error, since the chain read back has one top-level instance whose
references run deeper than the writer's budget. -/
theorem cimom_refuses_deep_chain :
    ¬ ∀ (r : Router) (fs : Files.Store) (now : Nat) (req : Request),
      req.body.length ≤ r.config.maxPayloadSize → r.Authenticates fs now req →
      (∃ tops A, deserialize req.body Arena.empty = .ok (tops, A)) → (r.cimom fs now req).1.status = 200 := by
  intro hall
  obtain ⟨bytes, tops, A, -, hdec, e, hser⟩ := chainStream_reencode_error (n := maxReferenceDepth + 1) le_rfl
    (by decide)
  let r := Router.new { maxPayloadSize := bytes.length } 0
  have hauth : r.Authenticates {} 0 { body := bytes } := ⟨_, _, _, _, rfl⟩
  have h500 := Router.cimom_of_serialize_error (r := r) le_rfl hauth hdec hser
  have h200 := hall r {} 0 { body := bytes } le_rfl hauth ⟨tops, A, hdec⟩
  rw [h500] at h200
  simp [textResponse] at h200

end CimBroker.Server

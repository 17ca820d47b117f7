import CimBroker.Server.Config
import CimBroker.Server.Stats
import CimBroker.Stream.Decode

/-!
# The HTTP front end

Two routes: `GET /health` reports liveness and the counters; `POST /cimom`
takes an object stream. Requests are routed by the path of their target
(`requestPath`), without query and fragment. A request to another path is answered 404, one with
another method to a known path 405, both with an empty body.

A `/cimom` request whose body is larger than the configured limit is refused
with 413 before anything is counted. Otherwise the request and its body
bytes are counted, and then:

1. the credential headers go to the authenticator (a header counts only if
   its first value is visible ASCII); a challenge or a refusal is answered
   401, with the challenge in `WWW-Authenticate`, unless the challenge holds
   a control character and cannot be a header value: that is answered 500;
2. the body is decoded into a fresh arena; malformed input is answered 400;
3. the decoded graph is written back from its top-level instances and sent
   with 200.

A failure to write a secret file, or to write the answer, is answered 500.
Error bodies are short fixed texts, never details.
-/

namespace CimBroker.Server

/-- An HTTP request. -/
structure Request where
  method : String := "POST"
  path : String := "/cimom"
  headers : List (String × String) := []
  body : List UInt8 := []

/-- What `/health` reports: that the server runs, what it is, and its counters. -/
structure HealthReport where
  status : String := "ok"
  name : String := "cimserver"
  version : String := "0.1.0"
  stats : Stats
deriving DecidableEq, Repr

/-- The body of a response. -/
inductive Payload where
  | empty
  | text (s : String)
  | octets (bytes : List UInt8)
  | health (report : HealthReport)

/-- An HTTP response. -/
structure Response where
  status : Nat
  contentType : Option String := none
  wwwAuthenticate : Option String := none
  payload : Payload := .empty

/-- A server: its configuration, authenticator and counters. -/
structure Router where
  config : ServerConfig
  auth : Auth.Authenticator
  stats : Stats := {}

/-- Content type of text bodies. -/
def plainText : String := "text/plain; charset=utf-8"

/-- A short text response. -/
def textResponse (status : Nat) (s : String) : Response :=
  { status, contentType := some plainText, payload := .text s }

/-- Whether `s` may be sent as a header value: no control character but
the tab. Bytes beyond ASCII are allowed. -/
def isHeaderValue (s : String) : Bool :=
  s.toList.all fun c => c = '\t' || (0x20 ≤ c.toNat && c.toNat ≠ 0x7F)

/-- The path of a request target, by which requests are routed. In origin
form (`/path?query#fragment`) it is the text before a query or fragment;
in absolute form (`scheme://authority/path...`) the same after the
authority, and `/` when nothing follows the authority. A target of neither
form (authority form, `*`) has the empty path, which no route matches. -/
def requestPath (target : String) : String :=
  let cs := target.toList
  let beforeQuery := fun (cs : List Char) => String.ofList (cs.takeWhile fun c => c ≠ '?' ∧ c ≠ '#')
  match cs with
  | '/' :: _ => beforeQuery cs
  | _ =>
    match target.splitOn "://" with
    | _ :: rest@(_ :: _) =>
      let afterScheme := ("://".intercalate rest).toList
      let path := beforeQuery (afterScheme.dropWhile fun c => c ≠ '/' ∧ c ≠ '?' ∧ c ≠ '#')
      if path.isEmpty then "/" else path
    | _ => ""

/-- Whether a header value is visible ASCII (tab allowed). -/
def isVisibleAscii (s : String) : Bool :=
  s.toList.all fun c => c = '\t' || (0x20 ≤ c.toNat && c.toNat < 0x7F)

/-- The value of the first header called `name` (any case), if it is
visible ASCII. -/
def headerValue (headers : List (String × String)) (name : String) : Option String :=
  match headers.find? (fun (n, _) => n.toList.map Char.toLower == name.toList.map Char.toLower) with
  | some (_, v) => if isVisibleAscii v then some v else none
  | none => none

namespace Router

/-- A server for configuration `c`; `seed` starts its secret generator. -/
def new (c : ServerConfig) (seed : UInt64) : Router := ⟨c, Auth.Authenticator.new c.auth seed, {}⟩

/-- Handles a `/cimom` request at time `now`. -/
def cimom (r : Router) (fs : Files.Store) (now : Nat) (req : Request) : Response × Router × Files.Store :=
  if req.body.length > r.config.maxPayloadSize then
    (textResponse 413 "Failed to buffer the request body: length limit exceeded", r, fs)
  else
    let r := { r with stats := { r.stats with requests := r.stats.requests + 1,
                                              bytesIn := r.stats.bytesIn + req.body.length.toUInt64 } }
    let authorization := headerValue req.headers Auth.authorizationHeader
    let localAuthorization := headerValue req.headers Auth.localAuthorizationHeader
    match r.auth.authenticate fs now authorization localAuthorization with
    | .error _ => (textResponse 500 "Internal server error", r, fs)
    | .ok (outcome, auth, fs) =>
      let r := { r with auth }
      match outcome with
      | .challenge value =>
        let r := { r with stats := { r.stats with challenges := r.stats.challenges + 1 } }
        if isHeaderValue value then
          ({ textResponse 401 "Unauthorized" with wwwAuthenticate := some value }, r, fs)
        else (textResponse 500 "failed to parse header value", r, fs)
      | .denied =>
        let r := { r with stats := { r.stats with denied := r.stats.denied + 1 } }
        (textResponse 401 "Unauthorized", r, fs)
      | .authenticated _ _ =>
        let r := { r with stats := { r.stats with authenticated := r.stats.authenticated + 1 } }
        match Stream.deserialize req.body Stream.Arena.empty with
        | .error e =>
          if e.isDecodeFailure then
            let r := { r with stats := { r.stats with decodeFailures := r.stats.decodeFailures + 1 } }
            (textResponse 400 "Malformed object stream", r, fs)
          else (textResponse 500 "Internal server error", r, fs)
        | .ok (tops, arena) =>
          match Stream.serialize arena tops with
          | .error _ => (textResponse 500 "Internal server error", r, fs)
          | .ok out =>
            let r := { r with stats := { r.stats with bytesOut := r.stats.bytesOut + out.length.toUInt64 } }
            ({ status := 200, contentType := some "application/octet-stream", payload := .octets out },
              r, fs)

/-- Handles a request at time `now`. -/
def handle (r : Router) (fs : Files.Store) (now : Nat) (req : Request) : Response × Router × Files.Store :=
  let path := requestPath req.path
  if path = "/health" then
    if req.method = "GET" then
      ({ status := 200, contentType := some "application/json", payload := .health { stats := r.stats } }, r, fs)
    else if req.method = "HEAD" then
      ({ status := 200, contentType := some "application/json" }, r, fs)
    else ({ status := 405 }, r, fs)
  else if path = "/cimom" then
    if req.method = "POST" then r.cimom fs now req else ({ status := 405 }, r, fs)
  else ({ status := 404 }, r, fs)

end Router

end CimBroker.Server

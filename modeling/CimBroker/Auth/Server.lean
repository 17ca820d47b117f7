import CimBroker.Auth.Client
import CimBroker.Auth.Secret

/-!
# The server side of a round

The server decides on each request from its two credential headers:

* with authentication off, every caller is the anonymous user;
* a `PegasusAuthorization` header decides alone: refused when the `Local`
  scheme is off; `Local "user"` asks for a secret, `Local "user:file:secret"`
  redeems one;
* else an `Authorization` header must be `Basic` with a known user and its
  password;
* with no header, the caller is challenged for `Basic` credentials, or
  refused when `Basic` is off.

Asking for a secret writes a fresh file `cimb-local-<user>-<nonce>` into the
trusted directory and challenges with its path as realm. Each user has at
most one pending secret (a new one replaces the old), all users together at
most `maxPending`, and a secret expires `ttl` seconds after it was issued.
A secret is redeemed once: the entry goes, and so does the file, whether or
not the redemption succeeds. Files of replaced and expired secrets are
removed too. Only failures to write a secret file are errors.
-/

namespace CimBroker.Auth

/-- What a server accepts, and against what. -/
structure AuthConfig where
  enabled : Bool := false
  basic : Bool := true
  /-- Whether the `Local` scheme is accepted. -/
  sameHost : Bool := true
  realm : String := "cimom"
  /-- User names and passwords. For `Local` only the name counts. -/
  users : List (String × String) := []
  /-- Where secret files are written. -/
  trustedDir : String := defaultTrustedDir
  /-- Seconds a secret stays redeemable. -/
  ttl : Nat := 60
  /-- Most secrets pending at once, over all users. -/
  maxPending : Nat := 1024
deriving Repr

/-- The decision on a request. -/
inductive Outcome where
  /-- The caller is `user`, by `scheme`. -/
  | authenticated (user : String) (scheme : Scheme)
  /-- Answer 401 with this challenge. -/
  | challenge (value : String)
  /-- Answer 401 with no challenge. -/
  | denied
deriving DecidableEq, Repr

/-- A secret issued and not yet redeemed. -/
structure Issued where
  path : String
  user : String
  secret : String
  issuedAt : Nat
deriving Repr

/-- A server's authentication state. -/
structure Authenticator where
  config : AuthConfig
  issued : List Issued := []
  entropy : Entropy
deriving Repr

/-- Whether a user name may go into a file name: not empty, not starting
with a dot, and only ASCII letters, digits, `-`, `_` and `.`. -/
def isPlainUserName (user : String) : Bool :=
  !user.isEmpty && !user.startsWith "." &&
    user.toList.all fun c => c.isAlphanum || c = '-' || c = '_' || c = '.'

/-- The first part of `s` before `sep`, and the rest after it. -/
def splitFirst (s : String) (sep : Char) : Option (String × String) :=
  match s.toList.dropWhile (· ≠ sep) with
  | [] => none
  | _ :: after => some (String.ofList (s.toList.takeWhile (· ≠ sep)), String.ofList after)

/-- The part of `s` before its last `sep`, and the rest after it. -/
def splitLast (s : String) (sep : Char) : Option (String × String) :=
  (splitFirst (String.ofList s.toList.reverse) sep).map fun (a, b) =>
    (String.ofList b.toList.reverse, String.ofList a.toList.reverse)

/-- Removes files, ignoring failures. -/
def removeFiles (fs : Files.Store) (paths : List String) : Files.Store :=
  paths.foldl (fun fs p => match fs.removeFile p with
    | .ok fs => fs
    | .error _ => fs) fs

namespace Authenticator

/-- A server with no secret pending. -/
def new (config : AuthConfig) (seed : UInt64) : Authenticator := ⟨config, [], ⟨seed⟩⟩

/-- Number of secrets pending. -/
def pending (a : Authenticator) : Nat := a.issued.length

/-- The `Basic` challenge. -/
def basicChallenge (a : Authenticator) : String := (Challenge.mk "Basic" a.config.realm).toHeaderValue

/-- Whether `Local` may issue a secret to `user`: any user when no users are
configured. -/
def isKnownUser (a : Authenticator) (user : String) : Bool :=
  a.config.users.isEmpty || a.config.users.any (·.1 = user)

/-- Drops the secrets expired at time `now`; their paths come back. -/
def takeExpired (a : Authenticator) (now : Nat) : List String × Authenticator :=
  let old := fun (e : Issued) => decide (now - e.issuedAt ≥ a.config.ttl)
  ((a.issued.filter old).map (·.path), { a with issued := a.issued.filter (!old ·) })

/-- Checks `Basic` credentials. -/
def checkBasic (a : Authenticator) (token : String) : Outcome :=
  match Text.Base64.decode token with
  | none => .denied
  | some bytes =>
    match String.fromUTF8? ⟨bytes.toArray⟩ with
    | none => .denied
    | some text =>
      match splitFirst text ':' with
      | none => .denied
      | some (user, password) =>
        match a.config.users.find? (·.1 = user) with
        | some (_, expected) => if expected = password then .authenticated user .basic else .denied
        | none => .denied

/-- Issues a secret to `user` at time `now`. -/
def issue (a : Authenticator) (fs : Files.Store) (now : Nat) (user : String) :
    Except AuthError (Outcome × Authenticator × Files.Store) :=
  if !(isPlainUserName user && a.isKnownUser user) then .ok (.denied, a, fs)
  else
    let (secret, e) := a.entropy.secret
    let (nonce, e) := e.nonce
    let a := { a with entropy := e }
    let file := Files.join a.config.trustedDir ("cimb-local-" ++ user ++ "-" ++ hex16 nonce)
    match fs.createNew file secret with
    | .error err => .error (.io err)
    | .ok fs =>
      let (expired, a) := a.takeExpired now
      let previous := (a.issued.filter (·.user = user)).map (·.path)
      let a := { a with issued := a.issued.filter (·.user ≠ user) }
      let stale := expired ++ previous
      if a.issued.length ≥ a.config.maxPending then
        .ok (.denied, a, removeFiles fs (stale ++ [file]))
      else
        let a := { a with issued := a.issued.filter (!Files.samePath ·.path file) ++
          [⟨file, user, secret, now⟩] }
        .ok (.challenge (Challenge.mk "Local" file).toHeaderValue, a, removeFiles fs stale)

/-- Redeems the secret of `file` for `user` at time `now`. -/
def redeem (a : Authenticator) (fs : Files.Store) (now : Nat) (user file secret : String) :
    Outcome × Authenticator × Files.Store :=
  let (expired, a) := a.takeExpired now
  let fs := removeFiles fs expired
  match a.issued.find? (Files.samePath ·.path file) with
  | none => (.denied, a, fs)
  | some e =>
    let a := { a with issued := a.issued.filter (!Files.samePath ·.path file) }
    let fs := removeFiles fs [file]
    if e.user = user ∧ secret ≠ "" ∧ e.secret = secret then (.authenticated user .sameHost, a, fs)
    else (.denied, a, fs)

/-- Decides on a `Local` credential. -/
def checkLocal (a : Authenticator) (fs : Files.Store) (now : Nat) (value : String) :
    Except AuthError (Outcome × Authenticator × Files.Store) :=
  let v := Text.trimStart value
  if !v.startsWith "Local" then .ok (.denied, a, fs)
  else
    match quotedContent (v.toList.drop 5) with
    | none => .ok (.denied, a, fs)
    | some content =>
      let content := String.ofList content
      match splitFirst content ':' with
      | none => a.issue fs now content
      | some (user, rest) =>
        match splitLast rest ':' with
        | none => .ok (.denied, a, fs)
        | some (file, secret) => .ok (a.redeem fs now user file secret)

/-- Decides on a request from its `Authorization` and `PegasusAuthorization`
values, at time `now`. -/
def authenticate (a : Authenticator) (fs : Files.Store) (now : Nat)
    (authorization localAuthorization : Option String) :
    Except AuthError (Outcome × Authenticator × Files.Store) :=
  if !a.config.enabled then .ok (.authenticated "anonymous" .absent, a, fs)
  else
    match localAuthorization with
    | some v => if a.config.sameHost then a.checkLocal fs now v else .ok (.denied, a, fs)
    | none =>
      match authorization with
      | some v =>
        let v := Text.trimStart v
        let (scheme, token) := (splitFirst v ' ').getD (v, "")
        if scheme = "Basic" ∧ a.config.basic then .ok (a.checkBasic (Text.trim token), a, fs)
        else .ok (.denied, a, fs)
      | none =>
        if a.config.basic then .ok (.challenge a.basicChallenge, a, fs) else .ok (.denied, a, fs)

end Authenticator

end CimBroker.Auth

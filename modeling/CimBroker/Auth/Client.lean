import CimBroker.Auth.Scheme
import CimBroker.Files.Store
import CimBroker.Text.Base64

/-!
# The client side of a round

A client follows at most one challenge between two calls of `clear`: a
second challenge is reported as not followed, so that a server cannot keep
it in a loop. A `Local` challenge is followed only when its realm, the path
of the secret file, lies directly in the client's trusted directory
(compared as paths, `CimBroker.Files.parentIs`); the secret is read from that
file when the credential header is first built, and kept until the round
ends.

A `Local` credential names the user, and once a challenge is followed the
file and the secret too: `Local "user:file:secret"`. A user never set is the
login name of the environment.
-/

namespace CimBroker.Auth

/-- The trusted directory of a client that names none. -/
def defaultTrustedDir : String := "/tmp"

/-- The state of a client between requests. -/
structure Client where
  scheme : Scheme := .absent
  challengeReceived : Bool := false
  user : Option String := none
  password : Option String := none
  realm : Option String := none
  trustedDir : String := defaultTrustedDir
  secretFile : Option String := none
  /-- The secret read for this round, once read. -/
  secret : Option String := none
deriving Repr

namespace Client

/-- A client that trusts secret files in `dir`. -/
def new (dir : String) : Client := { trustedDir := dir }

/-- Sets user and password. -/
def setCredentials (c : Client) (user password : String) : Client :=
  { c with user := some user, password := some password }

/-- Sets the user. -/
def setUser (c : Client) (user : String) : Client := { c with user := some user }

/-- Chooses a scheme ahead of any challenge. -/
def setScheme (c : Client) (s : Scheme) : Client := { c with scheme := s }

/-- Starts a new round; user, password and trusted directory stay. -/
def clear (c : Client) : Client :=
  { c with scheme := .absent, challengeReceived := false, realm := none, secretFile := none,
           secret := none }

/-- Looks at a challenge header from a response, on the client's state:
`true` when the client follows it, `false` when it deliberately does not (a
repeated challenge, or a secret file outside the trusted directory). A header
that cannot be read, or names no known scheme, is an error; the state goes on
after it as the method left it. -/
def followChallenge (header : String) : EStateM AuthError Client Bool := do
  if (← get).challengeReceived then return false
  let ch ← ofExcept (Challenge.parse header)
  let some s := Scheme.ofName? ch.scheme | throw (.invalidHeader (.unknownScheme ch.scheme))
  if s = .sameHost then
    if !Files.parentIs ch.realm (← get).trustedDir then return false
    modify fun c => { c with secretFile := some ch.realm, secret := none }
  modify fun c => { c with scheme := s, realm := some ch.realm, challengeReceived := true }
  return true

/-- The answer of `followChallenge` and the client after it, when the header
can be read. -/
def check (c : Client) (header : String) : Except AuthError (Bool × Client) :=
  match followChallenge header c with
  | .ok b c' => .ok (b, c')
  | .error e _ => .error e

/-- Text of a secret file: its content without trailing carriage returns and
line feeds; empty when the path is no regular file. -/
def readSecret (fs : Files.Store) (path : String) : String :=
  match fs.readRegular path with
  | .ok content => String.ofList (content.toList.reverse.dropWhile (fun ch => ch = '\r' ∨ ch = '\n')).reverse
  | .error _ => ""

/-- The credential header for the next request, as name and value, if the
scheme sends one. `login` is the environment's user name. The secret read
is kept in the client. -/
def requestHeader (c : Client) (fs : Files.Store) (login : String) :
    Option (String × String) × Client :=
  match c.scheme with
  | .absent => (none, c)
  | .basic =>
    let token := Text.Base64.encode (c.user.getD "" ++ ":" ++ c.password.getD "").toUTF8.toList
    (some (authorizationHeader, "Basic " ++ token), c)
  | .digest => (some (authorizationHeader, "Digest"), c)
  | .sameHost =>
    let user := c.user.getD login
    match c.challengeReceived, c.secretFile with
    | true, some file =>
      let secret := c.secret.getD (readSecret fs file)
      (some (localAuthorizationHeader, "Local \"" ++ user ++ ":" ++ file ++ ":" ++ secret ++ "\""),
        { c with secret := some secret })
    | _, _ => (some (localAuthorizationHeader, "Local \"" ++ user ++ "\""), c)

/-- The credential header line `Name: value`, or the empty text. -/
def buildHeader (c : Client) (fs : Files.Store) (login : String) : String × Client :=
  match c.requestHeader fs login with
  | (some (name, value), c) => (name ++ ": " ++ value, c)
  | (none, c) => ("", c)

end Client

end CimBroker.Auth

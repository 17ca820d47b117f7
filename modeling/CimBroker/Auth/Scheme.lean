import CimBroker.Auth.Error
import CimBroker.Text.Blank

/-!
# Schemes and challenges

A server asks for credentials with a challenge `Scheme realm="..."`. Three
schemes are known, by exact, case-sensitive name: `Basic` (user and password
in base64), `Digest` (recognised, never answered) and `Local` (the realm
names a secret file that only a process on the server's host can read).

Reading a challenge skips blanks at its start, takes the scheme up to the
first space, and the realm between the first two double quotes after it.
The scheme is not checked here.
-/

namespace CimBroker.Auth

/-- An authentication scheme, or none chosen yet. -/
inductive Scheme where
  /-- No scheme chosen. -/
  | absent
  | basic
  | digest
  /-- The `Local` scheme: the client proves it shares the server's host. -/
  | sameHost
deriving DecidableEq, Repr

namespace Scheme

/-- The scheme a challenge names, matched exactly. -/
def ofName? : String → Option Scheme
  | "Basic" => some .basic
  | "Digest" => some .digest
  | "Local" => some .sameHost
  | _ => none

/-- The name of the scheme, `none` for no scheme. -/
def toText : Scheme → String
  | .absent => "none"
  | .basic => "Basic"
  | .digest => "Digest"
  | .sameHost => "Local"

end Scheme

/-- Header carrying Basic and Digest credentials. -/
def authorizationHeader : String := "Authorization"

/-- Header carrying Local credentials. -/
def localAuthorizationHeader : String := "PegasusAuthorization"

/-- The text between the first and the second double quote of `cs`. -/
def quotedContent (cs : List Char) : Option (List Char) :=
  match cs.dropWhile (· ≠ '"') with
  | [] => none
  | _ :: after =>
    match after.dropWhile (· ≠ '"') with
    | [] => none
    | _ => some (after.takeWhile (· ≠ '"'))

/-- A challenge: a scheme name and a realm. -/
structure Challenge where
  scheme : String
  realm : String
deriving DecidableEq, Repr

namespace Challenge

/-- Reads a challenge header. -/
def parse (header : String) : Except AuthError Challenge :=
  let trimmed := (Text.trimStart header).toList
  match trimmed.dropWhile (· ≠ ' ') with
  | [] => .error (.invalidHeader (.missingRealm header))
  | _ :: rest =>
    let scheme := trimmed.takeWhile (· ≠ ' ')
    if scheme.isEmpty then .error (.invalidHeader (.missingScheme header))
    else
      match quotedContent rest with
      | none => .error (.invalidHeader (.missingRealm header))
      | some realm =>
        if realm.isEmpty then .error (.invalidHeader (.emptyRealm header))
        else .ok ⟨String.ofList scheme, String.ofList realm⟩

/-- The header value of a challenge. -/
def toHeaderValue (c : Challenge) : String :=
  c.scheme ++ " realm=\"" ++ c.realm ++ "\""

end Challenge

end CimBroker.Auth

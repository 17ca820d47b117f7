import CimBroker.Text.Quoted
import CimBroker.Files.Error

/-!
# Why authentication fails

A header that cannot be read, or a secret file that cannot be written.
-/

namespace CimBroker.Auth

/-- What is wrong with an authentication header. -/
inductive HeaderFault where
  /-- No space after the scheme, or no quoted realm. -/
  | missingRealm (header : String)
  /-- Nothing before the first space. -/
  | missingScheme (header : String)
  /-- The quoted realm is empty. -/
  | emptyRealm (header : String)
  /-- The scheme is none of `Basic`, `Digest`, `Local`. -/
  | unknownScheme (scheme : String)
deriving DecidableEq, Repr

/-- The detail text of a header fault. -/
def HeaderFault.detail : HeaderFault → String
  | .missingRealm h => "missing realm in " ++ Text.quote h
  | .missingScheme h => "missing scheme in " ++ Text.quote h
  | .emptyRealm h => "empty realm in " ++ Text.quote h
  | .unknownScheme s => "unknown scheme " ++ Text.quote s

/-- A failure of the authentication layer. -/
inductive AuthError where
  | invalidHeader (fault : HeaderFault)
  | io (error : Files.IoError)
deriving DecidableEq, Repr

/-- The message of a failure. -/
def AuthError.message : AuthError → String
  | .invalidHeader f => "invalid auth header: " ++ f.detail
  | .io e => "I/O error: " ++ e.message

end CimBroker.Auth

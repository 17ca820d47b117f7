import CimBroker.Text.Quoted

/-!
# Why address text is refused

Each refusal carries the text it is about, and its message shows that text
quoted by `CimBroker.Text.quote`.
-/

namespace CimBroker.Address

/-- A reason to refuse address text. -/
inductive AddrError where
  /-- The text is no IPv4 address, IPv6 address or host name. -/
  | invalid (text : String)
  /-- The port of a locator is not a decimal number from 0 to 65535. -/
  | invalidPort (text : String)
  /-- A locator opens a `[` that no `]` closes. -/
  | unterminatedBracket (text : String)
deriving DecidableEq, Repr

/-- The message of a refusal. -/
def AddrError.message : AddrError → String
  | .invalid t => "invalid host address: " ++ Text.quote t
  | .invalidPort t => "invalid port in " ++ Text.quote t
  | .unterminatedBracket t => "unterminated '[' in " ++ Text.quote t

end CimBroker.Address

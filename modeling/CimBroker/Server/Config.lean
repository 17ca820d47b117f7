import CimBroker.Toml.Value
import CimBroker.Address.Locator
import CimBroker.Auth.Server

/-!
# Server configuration

Where the server listens, how large a request body may be, and its
authentication settings. A configuration file is a TOML document, read into
its top-level entries by a TOML reader that `ofToml` is given; a key that is
missing keeps its default, an unknown key is ignored, and a key of the wrong
type or out of range makes the whole file unusable.

A group of settings (the authentication settings) may also be given as an
array, whose items are the settings in their order of declaration: missing
items keep their defaults and extra items are ignored. A date-time where a
table is expected reads as a table of one entry, the date-time's text under
the key `datetimeKey`; so authentication settings given as a date-time are
all defaults, and a date-time as the table of users names one user.

`validate` checks what reading cannot: a bind host that is an address or a
host name, a non-zero body limit, and at least one scheme when
authentication is on. `applyBind` overrides host and port from
`host[:port]` text, keeping the port when the text gives none.
-/

namespace CimBroker.Server

/-- The port of a server that names none. -/
def defaultPort : Nat := 5988

/-- The configuration of a server. -/
structure ServerConfig where
  bindHost : String := "127.0.0.1"
  port : Nat := defaultPort
  /-- Largest accepted request body, in bytes. -/
  maxPayloadSize : Nat := 16777216
  auth : Auth.AuthConfig := {}
deriving Repr

/-- Why a configuration is refused. -/
inductive ConfigError where
  | invalidBindHost (host : String)
  | zeroPayloadLimit
  | noSchemeAllowed
deriving DecidableEq, Repr

/-- The message of a refusal. -/
def ConfigError.message : ConfigError → String
  | .invalidBindHost h => "configuration error: invalid bind host " ++ Text.quote h
  | .zeroPayloadLimit => "configuration error: max_payload_size must be non-zero"
  | .noSchemeAllowed => "configuration error: authentication enabled with no scheme allowed"

namespace ServerConfig

/-! ## Reading a configuration file -/

open Toml in
/-- The text of a string value. -/
def asString : Value → Option String
  | .str s => some s
  | _ => none

open Toml in
/-- A boolean value. -/
def asBool : Value → Option Bool
  | .bool b => some b
  | _ => none

open Toml in
/-- An integer value from 0 to `max`. -/
def asNat (max : Nat) : Value → Option Nat
  | .int n => if 0 ≤ n ∧ n.toNat ≤ max then some n.toNat else none
  | _ => none

/-- The key of the one entry that a date-time gives where a table is expected. -/
def datetimeKey : String := "$__toml_private_datetime"

open Toml in
/-- A table of string values; a date-time gives one entry. -/
def asStringTable : Value → Option (List (String × String))
  | .table es => es.mapM fun (k, v) => (asString v).map (k, ·)
  | .datetime d => some [(datetimeKey, d.render)]
  | _ => none

/-- The value of `key` read by `read`, or `default` when the key is missing. -/
def field {α : Type} (es : List (String × Toml.Value)) (key : String) (read : Toml.Value → Option α)
    (default : α) : Option α :=
  match es.find? (·.1 = key) with
  | some (_, v) => read v
  | none => some default

/-- The item at `index` read by `read`, or `default` when the array is shorter. -/
def item {α : Type} (items : List Toml.Value) (index : Nat) (read : Toml.Value → Option α)
    (default : α) : Option α :=
  match items[index]? with
  | some v => read v
  | none => some default

/-- Largest value of a 64-bit unsigned field. -/
def maxU64 : Nat := 18446744073709551615

open Toml in
/-- Authentication settings from a table, by key; from an array, by
position in the order `enabled`, `basic`, `local`, `realm`, `users`,
`trusted_dir`, `local_secret_ttl_secs`, `max_pending_local_secrets`; from
a date-time, all defaults. -/
def authOf : Value → Option Auth.AuthConfig
  | .table es => do
    let d : Auth.AuthConfig := {}
    let enabled ← field es "enabled" asBool d.enabled
    let basic ← field es "basic" asBool d.basic
    let sameHost ← field es "local" asBool d.sameHost
    let realm ← field es "realm" asString d.realm
    let users ← field es "users" asStringTable d.users
    let trustedDir ← field es "trusted_dir" asString d.trustedDir
    let ttl ← field es "local_secret_ttl_secs" (asNat maxU64) d.ttl
    let maxPending ← field es "max_pending_local_secrets" (asNat maxU64) d.maxPending
    return { enabled, basic, sameHost, realm, users, trustedDir, ttl, maxPending }
  | .array items => do
    let d : Auth.AuthConfig := {}
    let enabled ← item items 0 asBool d.enabled
    let basic ← item items 1 asBool d.basic
    let sameHost ← item items 2 asBool d.sameHost
    let realm ← item items 3 asString d.realm
    let users ← item items 4 asStringTable d.users
    let trustedDir ← item items 5 asString d.trustedDir
    let ttl ← item items 6 (asNat maxU64) d.ttl
    let maxPending ← item items 7 (asNat maxU64) d.maxPending
    return { enabled, basic, sameHost, realm, users, trustedDir, ttl, maxPending }
  | .datetime _ => some {}
  | _ => none

/-- A configuration from the text of a TOML file, whose top-level entries
`parse` reads, or `none` when `parse` refuses the text or a key has a value
of the wrong type. -/
def ofToml (parse : String → Option (List (String × Toml.Value))) (text : String) :
    Option ServerConfig := do
  let es ← parse text
  let d : ServerConfig := {}
  let bindHost ← field es "bind_host" asString d.bindHost
  let port ← field es "port" (asNat 65535) d.port
  let maxPayloadSize ← field es "max_payload_size" (asNat maxU64) d.maxPayloadSize
  let auth ← field es "auth" authOf d.auth
  return { bindHost, port, maxPayloadSize, auth }

/-! ## Checking and overriding -/

/-- Checks the bind host, the body limit and the schemes, in that order. -/
def validate (c : ServerConfig) : Except ConfigError Unit :=
  if Address.classify c.bindHost = .invalid then .error (.invalidBindHost c.bindHost)
  else if c.maxPayloadSize = 0 then .error .zeroPayloadLimit
  else if c.auth.enabled ∧ !c.auth.basic ∧ !c.auth.sameHost then .error .noSchemeAllowed
  else .ok ()

/-- Overrides host and port from `host[:port]` text. -/
def applyBind (c : ServerConfig) (text : String) : Except Address.AddrError ServerConfig := do
  let l ← Address.Locator.parse text
  return { c with bindHost := l.host.toText, port := (l.portOr c.port.toUInt16).toNat }

/-- `host:port`, with an IPv6 host in brackets. -/
def bindDisplay (c : ServerConfig) : String :=
  if Address.classify c.bindHost = .ipv6 then "[" ++ c.bindHost ++ "]:" ++ toString c.port
  else c.bindHost ++ ":" ++ toString c.port

end ServerConfig

end CimBroker.Server

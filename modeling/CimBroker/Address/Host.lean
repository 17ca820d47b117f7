import CimBroker.Address.Ipv4
import CimBroker.Address.Ipv6
import CimBroker.Address.Hostname
import CimBroker.Address.Error

/-!
# Host addresses

A host is an IPv4 address, an IPv6 address or a host name. Text is tried in
that order. `classify` lets an IPv4 address be followed by a `:` suffix;
`Host.parse` asks the IPv4 form to take the whole text.
-/

namespace CimBroker.Address

/-- The family of address that a text is. -/
inductive Family where
  | ipv4
  | ipv6
  | hostname
  | invalid
deriving DecidableEq, Repr

/-- The family of `s`: IPv4 (a `:` suffix allowed), else IPv6, else a host
name, else invalid. -/
def classify (s : String) : Family :=
  if (Ipv4.parse? s).isSome then .ipv4
  else if (Ipv6.parse? s).isSome then .ipv6
  else if Hostname.isValid s then .hostname
  else .invalid

/-- A host: an address of either family, or a name as written. -/
inductive Host where
  | ipv4 (a : Ipv4)
  | ipv6 (a : Ipv6)
  | name (text : String)
deriving DecidableEq

namespace Host

/-- The family of a host. -/
def family : Host → Family
  | .ipv4 _ => .ipv4
  | .ipv6 _ => .ipv6
  | .name _ => .hostname

/-- The text of a host: dotted decimal, canonical IPv6, or the name. -/
def toText : Host → String
  | .ipv4 a => a.toText
  | .ipv6 a => a.toText
  | .name n => n

/-- The address bytes, for the two address families. -/
def ipBytes : Host → Option (List UInt8)
  | .ipv4 a => some a.toList
  | .ipv6 a => some a.bytes
  | .name _ => none

/-- Reads a host from the whole of `s`. -/
def parse (s : String) : Except AddrError Host :=
  match Ipv4.scan s.toList with
  | some (a, used) =>
    if used = s.length then .ok (.ipv4 a) else rest s
  | none => rest s
where
  /-- The text is no whole IPv4 address: try IPv6, then a name. -/
  rest (s : String) : Except AddrError Host :=
    match Ipv6.parse? s with
    | some a => .ok (.ipv6 a)
    | none => if Hostname.isValid s then .ok (.name s) else .error (.invalid s)

end Host

end CimBroker.Address

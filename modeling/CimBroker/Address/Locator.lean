import CimBroker.Address.Host

/-!
# Locators: a host with an optional port

A locator is written `host`, `host:port`, `[ipv6]` or `[ipv6]:port`. A text
with two or more colons and no bracket is read as a bare IPv6 address. A
port is one or more ASCII digits (leading zeros allowed) of value at most
65535.

A refused port is reported with the whole text; a refused host with the
text of the host alone (the inside of the brackets, or what stands before
the colon), except that a bare text with many colons is reported whole.
-/

namespace CimBroker.Address

/-- A host and, if the text gave one, a port. -/
structure Locator where
  host : Host
  port : Option UInt16

namespace Locator

/-- The port text `digits`, read as a number; `text` is the whole locator,
for the error. -/
def parsePort (digits : List Char) (text : String) : Except AddrError UInt16 :=
  if digits.isEmpty ∨ !digits.all Char.isDigit then .error (.invalidPort text)
  else
    let v := Ipv4.digitsValue digits
    if v ≤ 65535 then .ok v.toUInt16 else .error (.invalidPort text)

/-- Reads a locator. -/
def parse (text : String) : Except AddrError Locator :=
  match text.toList with
  | '[' :: rest =>
    let inner := rest.takeWhile (· ≠ ']')
    match rest.dropWhile (· ≠ ']') with
    | [] => .error (.unterminatedBracket text)
    | _ :: after =>
      match Ipv6.parse? (String.ofList inner) with
      | none => .error (.invalid (String.ofList inner))
      | some a =>
        match after with
        | [] => .ok ⟨.ipv6 a, none⟩
        | ':' :: p => do
          let port ← parsePort p text
          .ok ⟨.ipv6 a, some port⟩
        | _ => .error (.invalid text)
  | cs =>
    if cs.count ':' > 1 then
      match Ipv6.parse? text with
      | some a => .ok ⟨.ipv6 a, none⟩
      | none => .error (.invalid text)
    else
      match cs.dropWhile (· ≠ ':') with
      | [] => do
        let host ← Host.parse text
        .ok ⟨host, none⟩
      | _ :: p => do
        let port ← parsePort p text
        let host ← Host.parse (String.ofList (cs.takeWhile (· ≠ ':')))
        .ok ⟨host, some port⟩

/-- The port, or `default` when the text gave none. -/
def portOr (l : Locator) (default : UInt16) : UInt16 := l.port.getD default

/-- Text of a locator: an IPv6 host in brackets when a port follows. -/
def toText (l : Locator) : String :=
  match l.host, l.port with
  | .ipv6 a, some p => "[" ++ a.toText ++ "]:" ++ toString p.toNat
  | h, some p => h.toText ++ ":" ++ toString p.toNat
  | h, none => h.toText

end Locator

end CimBroker.Address

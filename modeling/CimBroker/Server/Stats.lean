/-!
# Request statistics

Counters of one server: requests received and the bytes of their bodies,
how authentication went, malformed payloads, and the bytes answered. Each
counter is a 64-bit word that is only ever added to, and an addition wraps
modulo `2 ^ 64` as an atomic `fetch_add` does.
-/

namespace CimBroker.Server

/-- The counters of one server. -/
structure Stats where
  requests : UInt64 := 0
  authenticated : UInt64 := 0
  challenges : UInt64 := 0
  denied : UInt64 := 0
  decodeFailures : UInt64 := 0
  bytesIn : UInt64 := 0
  bytesOut : UInt64 := 0
deriving DecidableEq, Repr

end CimBroker.Server

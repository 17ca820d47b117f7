/-!
# Handles of classes and instances

A handle is the position of a record in its arena. Handles are the
identities that the resolution tables key on: two instances share a class
exactly when they hold the same class handle, whatever the classes hold.

On the wire an instance is named by its token, its position plus one, so
that token zero can mark an empty reference slot.
-/

namespace CimBroker.Stream

/-- The handle of a class: its position in the arena. -/
structure ClassId where
  index : Nat
deriving DecidableEq, Repr

/-- The handle of an instance: its position in the arena. -/
structure InstanceId where
  index : Nat
deriving DecidableEq, Repr

/-- The text of a class handle, as errors show it. -/
def ClassId.toText (c : ClassId) : String := s!"class#{c.index}"

/-- The text of an instance handle, as errors show it. -/
def InstanceId.toText (i : InstanceId) : String := s!"instance#{i.index}"

/-- The wire token of an instance: its position plus one. -/
def InstanceId.token (i : InstanceId) : Nat := i.index + 1

/-- The instance a token names; token zero names none. -/
def InstanceId.ofToken? : Nat → Option InstanceId
  | 0 => none
  | t + 1 => some ⟨t⟩

@[simp] theorem InstanceId.ofToken?_token (i : InstanceId) : InstanceId.ofToken? i.token = some i := rfl

end CimBroker.Stream

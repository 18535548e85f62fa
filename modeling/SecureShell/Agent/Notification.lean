import SecureShell.Agent.Keyring

/-!
# Notifications

Those who want to know of changes in an agent. They are told in the order in which they were
added, and each sees the keyring as the change has left it. A listener may raise: then those after
it are not told.

What a listener does may depend on what listeners have been told before, and on anything else that
they remember. So a memory goes from one to the next; it is one for all of them, since they may
share what they remember, and its type is left open.
-/

namespace SecureShell

/-- A change that listeners are told of. -/
inductive AgentEvent where
  /-- A key has been added. -/
  | added
  /-- A key has been deleted. -/
  | deleted
  /-- All keys have been deleted. -/
  | deletedAll
  /-- The agent has been locked. -/
  | locked
  /-- The agent has been unlocked. -/
  | unlocked
  /-- A key has been used for an operation. -/
  | used (operation : String)
  deriving DecidableEq, Repr

/-- Types of listeners to keyrings with keys of type `κ` and policies of type `π`, whose memory is
of type `μ`. -/
class Listener (ι κ π μ : Type) where
  /-- Tells a listener of an event. Gives whether it raises, and the memory after that. -/
  tell : ι → AgentEvent → Keyring κ π → μ → Bool × μ

/-- One call of a listener, with what it was given to see. -/
structure Delivery (ι κ π : Type) where
  /-- The listener that was told. -/
  listener : ι
  /-- What it was told. -/
  event : AgentEvent
  /-- The keyring that it saw. -/
  keyring : Keyring κ π
  /-- Whether it raised. -/
  raised : Bool

/-- What came of telling listeners of an event. -/
structure Notification (ι κ π μ : Type) where
  /-- The calls, in order. -/
  deliveries : List (Delivery ι κ π)
  /-- Whether a listener raised. -/
  raised : Bool
  /-- The memory of the listeners afterwards. -/
  memory : μ

/-- Tells listeners of an event, one after the other, until one raises. -/
def notify {ι κ π μ : Type} [Listener ι κ π μ] (event : AgentEvent) (keyring : Keyring κ π) :
    μ → List ι → Notification ι κ π μ
  | m, [] => ⟨[], false, m⟩
  | m, l :: ls =>
    match Listener.tell l event keyring m with
    | (true, m) => ⟨[⟨l, event, keyring, true⟩], true, m⟩
    | (false, m) =>
      let rest := notify event keyring m ls
      { rest with deliveries := ⟨l, event, keyring, false⟩ :: rest.deliveries }

end SecureShell

import SecureShell.Agent.Notification
import SecureShell.Agent.Report

/-!
# The key agent

An agent keeps private keys and signs with them on request. Keys can be added, deleted and used
whether the agent is locked or not. A use is recorded before the private key is asked for a
signature, and stays recorded if there is none. Listeners are told of every change that has come
about, and of nothing else; if one of them raises, the request has no answer, but what it changed
stays changed.
-/

namespace SecureShell

/-- When a request comes: the reading of the clock, and the memory of the listeners. Others may tell
them things too, so between two requests their memory may change in any way. -/
structure Moment (μ : Type) where
  /-- The reading of the clock. -/
  clock : Nat
  /-- The memory of the listeners. -/
  memory : μ

/-- A reading of the clock is a moment if there is nothing to remember. -/
instance (clock : Nat) : OfNat (Moment Unit) clock := ⟨⟨clock, ()⟩⟩

/-- An agent with private keys of type `κ`, policies of type `π` and listeners of type `ι`. -/
structure Agent (κ π ι : Type) where
  /-- The keys and the lock. -/
  keyring : Keyring κ π
  /-- The listeners, in the order in which they were added. -/
  listeners : List ι

/-- Why an agent gives no signature. -/
inductive AgentError where
  /-- The key is not stored. -/
  | noSuchKey
  /-- The private key gave no signature. -/
  | signingFailed
  /-- The policy of the key does not allow its use. -/
  | limitReached
  deriving DecidableEq, Repr

/-- The text of an agent error. -/
def AgentError.message : AgentError → String
  | .noSuchKey => "The key does not exist"
  | .signingFailed => "Signature generation failed"
  | .limitReached => "Key constraints exceeded"

/-- What came of a request: its answer, unless a listener raised, and all that followed from it. -/
structure Outcome (κ π ι μ α : Type) where
  /-- The answer; there is none if a listener raised. -/
  answer : Option α
  /-- The agent after the request. -/
  agent : Agent κ π ι
  /-- The memory of the listeners after the request. -/
  memory : μ
  /-- The calls of listeners, in order. -/
  deliveries : List (Delivery ι κ π)
  /-- The calls of private keys, in order. -/
  calls : List (SigningCall κ)
  /-- The reports, in order. -/
  log : List AgentReport

/-- The outcome of a request for which a private key was called. -/
def Outcome.calling {κ π ι μ α : Type} (o : Outcome κ π ι μ α) (call : SigningCall κ) :
    Outcome κ π ι μ α :=
  { o with calls := o.calls ++ [call] }

namespace Agent

variable {κ π ι μ α : Type}

/-- An agent without keys and listeners. -/
def empty : Agent κ π ι := ⟨.empty, []⟩

/-- The operation that listeners are told of after a signature. -/
def hashAndSign : String := "hash-and-sign"

/-- Ends a request of which listeners are not told. -/
def settle (a : Agent κ π ι) (m : μ) (answer : α) (log : List AgentReport) :
    Outcome κ π ι μ α :=
  ⟨some answer, a, m, [], [], log⟩

/-- Ends a request of which all listeners are told. -/
def announce [Listener ι κ π μ] (a : Agent κ π ι) (m : μ) (event : AgentEvent) (answer : α)
    (log : List AgentReport) : Outcome κ π ι μ α :=
  let told := notify event a.keyring m a.listeners
  ⟨if told.raised then none else some answer, a, told.memory, told.deliveries, [], log⟩

/-! ### Listeners -/

/-- Adds a listener after all others. It may be there already. -/
def listen (a : Agent κ π ι) (l : ι) : Agent κ π ι :=
  { a with listeners := a.listeners ++ [l] }

/-- Removes the first registration of a listener, and tells whether there was one. -/
def unlisten [DecidableEq ι] (a : Agent κ π ι) (l : ι) : Bool × Agent κ π ι :=
  (a.listeners.contains l, { a with listeners := a.listeners.erase l })

/-! ### Keys -/

variable [Listener ι κ π μ]

/-- Adds a key under a public key, unless there is one under it already. -/
def add (a : Agent κ π ι) (m : μ) (r : KeyRecord κ π) : Outcome κ π ι μ Bool :=
  let fingerprint := r.publicKey.fingerprint
  match a.keyring.insert r with
  | (false, _) => a.settle m false [.present fingerprint]
  | (true, keyring) =>
    { a with keyring := keyring }.announce m .added true [.added fingerprint r.description]

/-- Deletes the key under a public key, if it has the given description. -/
def delete (a : Agent κ π ι) (m : μ) (k : Identity) (description : String) :
    Outcome κ π ι μ Bool :=
  match a.keyring.remove k description with
  | (false, _) => a.settle m false []
  | (true, keyring) =>
    { a with keyring := keyring }.announce m .deleted true [.deleted k.fingerprint]

/-- Deletes all keys. -/
def deleteAll (a : Agent κ π ι) (m : μ) : Outcome κ π ι μ Unit :=
  { a with keyring := a.keyring.clear }.announce m .deletedAll () [.deletedAll]

/-! ### The lock -/

/-- Locks the agent, unless it is locked already. -/
def lock (a : Agent κ π ι) (m : μ) (password : String) : Outcome κ π ι μ Bool :=
  match a.keyring.lock password with
  | (false, _) => a.settle m false []
  | (true, keyring) => { a with keyring := keyring }.announce m .locked true [.locked]

/-- Unlocks the agent, if it is locked with this password. -/
def unlock (a : Agent κ π ι) (m : μ) (password : String) : Outcome κ π ι μ Bool :=
  match a.keyring.unlock password with
  | (false, _) => a.settle m false []
  | (true, keyring) => { a with keyring := keyring }.announce m .unlocked true [.unlocked]

/-! ### Signatures -/

/-- Signs data with the private key under a public key, if its policy allows it at this reading of
the clock. The way that the request came is only reported. -/
def sign [SigningKey κ] [Policy π] (a : Agent κ π ι) (now : Moment μ) (k : Identity)
    (path : List ForwardingHop) (data : Bytes) :
    Outcome κ π ι μ (Except AgentError Signature) :=
  match a.keyring.record? k with
  | none => a.settle now.memory (.error .noSuchKey) []
  | some r =>
    if !Policy.canUse r.policy || Policy.hasTimedOut r.policy now.clock then
      a.settle now.memory (.error .limitReached) [.refused k.fingerprint]
    else
      let (result, privateKey) := SigningKey.sign r.privateKey data
      let a := { a with keyring := a.keyring.renew k privateKey (Policy.consume r.policy) }
      let hops := path.map AgentReport.forwarded
      let call : SigningCall κ := ⟨k, r.privateKey, data⟩
      match result with
      | .error e =>
        (a.settle now.memory (.error .signingFailed)
          (hops ++ [.failed k.fingerprint e])).calling call
      | .ok s =>
        (a.announce now.memory (.used hashAndSign) (.ok s)
          (hops ++ [.signed k.fingerprint])).calling call

/-- What is shown of an agent. -/
def description (a : Agent κ π ι) : String :=
  Text.labelled "KeyAgent"
    [("store", a.keyring.description), ("listeners", toString a.listeners.length)]

end Agent

end SecureShell

import SecureShell.Agent.Request

/-!
# Agents behind a lock

An agent has many users and serves one request at a time: whoever asks holds a lock until the
request is done. When a listener raises the lock is left poisoned, which tells those who take it
next that the value may be half changed. They take it all the same, since an agent has been changed
completely before its listeners are told.

It is assumed that raising unwinds: what a listener raises gets back to whoever asked, and the lock
is given back on the way. Of a program that ends as soon as something is raised, which it can be
built to do, nothing is said, since nobody asks it for anything after that.
-/

namespace SecureShell

/-- A value behind a lock. -/
structure Guarded (α : Type) where
  /-- The value. -/
  value : α
  /-- Whether something was raised while the lock was held. -/
  poisoned : Bool

namespace Guarded

variable {α : Type}

/-- A value behind a lock that has not been held yet. -/
def fresh (value : α) : Guarded α := ⟨value, false⟩

/-- Takes the lock and gives the value, as an error if the lock is poisoned. -/
def acquire (g : Guarded α) : Except α α :=
  if g.poisoned then .error g.value else .ok g.value

/-- Takes the lock and gives the value, whether the lock is poisoned or not. -/
def recover (g : Guarded α) : α :=
  match g.acquire with
  | .ok value => value
  | .error value => value

end Guarded

/-- An agent behind a lock. -/
abbrev GuardedAgent (κ π ι : Type) := Guarded (Agent κ π ι)

namespace GuardedAgent

variable {κ π ι μ α : Type}

/-! ### Requests -/

section Requests

variable [SigningKey κ] [Policy π] [DecidableEq ι] [Listener ι κ π μ]

/-- Does what a request asks for while the lock is held. The lock is poisoned if a listener
raises. -/
def serve (g : GuardedAgent κ π ι) (now : Moment μ) (q : Request κ π ι) :
    Outcome κ π ι μ Answer × GuardedAgent κ π ι :=
  let o := g.recover.serve now q
  (o, ⟨o.agent, g.poisoned || o.answer.isNone⟩)

/-- Serves requests one after the other, as an agent does. -/
def run (g : GuardedAgent κ π ι) : List (Moment μ × Request κ π ι) →
    GuardedAgent κ π ι × List (Outcome κ π ι μ Answer)
  | [] => (g, [])
  | (now, q) :: rest =>
    let (o, g) := g.serve now q
    let (last, outcomes) := g.run rest
    (last, o :: outcomes)

end Requests

/-! ### Questions

A question takes the lock, looks at the agent and gives the lock back. It changes nothing, and no
listener is told of it. -/

/-- Answers a question about the agent while the lock is held. -/
def ask (g : GuardedAgent κ π ι) (question : Agent κ π ι → α) : α := question g.recover

/-- All public keys with their descriptions, in order. -/
def publicKeys (g : GuardedAgent κ π ι) : List (Identity × String) := g.ask (·.keyring.publicKeys)

/-- The position of a public key. -/
def indexOf? (g : GuardedAgent κ π ι) (k : Identity) : Option Nat := g.ask (·.keyring.indexOf? k)

/-- The public key at a position. -/
def elementAt? (g : GuardedAgent κ π ι) (i : Nat) : Option Identity :=
  g.ask (·.keyring.elementAt? i)

/-- The description of a public key. -/
def description? (g : GuardedAgent κ π ι) (k : Identity) : Option String :=
  g.ask (·.keyring.description? k)

/-- Looks at the policy of a public key while the lock is held. Whoever looks does not raise. -/
def withPolicy? (g : GuardedAgent κ π ι) (k : Identity) (look : π → α) : Option α :=
  g.ask fun a ↦ (a.keyring.policy? k).map look

/-- The number of keys. -/
def size (g : GuardedAgent κ π ι) : Nat := g.ask (·.keyring.size)

/-- Whether there are no keys. -/
def isEmpty (g : GuardedAgent κ π ι) : Bool := g.ask (·.keyring.isEmpty)

/-- Whether the agent is locked. -/
def isLocked (g : GuardedAgent κ π ι) : Bool := g.ask (·.keyring.isLocked)

/-- What is shown of the agent. -/
def description (g : GuardedAgent κ π ι) : String := g.ask (·.description)

end GuardedAgent

end SecureShell

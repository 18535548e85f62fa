import SecureShell.Agent.Basic

/-!
# Requests

All that an agent can be asked to do, as values, so that a run of an agent is a list of requests
with the moments at which they came.
-/

namespace SecureShell

/-- Something that an agent is asked to do. -/
inductive Request (κ π ι : Type) where
  /-- Add a key. -/
  | add (record : KeyRecord κ π)
  /-- Delete a key that has this description. -/
  | delete (publicKey : Identity) (description : String)
  /-- Delete all keys. -/
  | deleteAll
  /-- Lock the agent. -/
  | lock (password : String)
  /-- Unlock the agent. -/
  | unlock (password : String)
  /-- Sign data. -/
  | sign (publicKey : Identity) (path : List ForwardingHop) (data : Bytes)
  /-- Tell a listener of changes from now on. -/
  | listen (listener : ι)
  /-- Tell a listener of changes no longer. -/
  | unlisten (listener : ι)

/-- What an agent answers. -/
inductive Answer where
  /-- The request has been done. -/
  | done
  /-- Whether the request has been done. -/
  | accepted (yes : Bool)
  /-- A signature, or why there is none. -/
  | signature (result : Except AgentError Signature)

/-- Another answer of the same outcome. -/
def Outcome.map {κ π ι μ α β : Type} (f : α → β) (o : Outcome κ π ι μ α) : Outcome κ π ι μ β :=
  ⟨o.answer.map f, o.agent, o.memory, o.deliveries, o.calls, o.log⟩

namespace Agent

variable {κ π ι μ : Type} [SigningKey κ] [Policy π] [DecidableEq ι] [Listener ι κ π μ]

/-- Does what a request asks for at a moment. -/
def serve (a : Agent κ π ι) (now : Moment μ) : Request κ π ι → Outcome κ π ι μ Answer
  | .add r => (a.add now.memory r).map .accepted
  | .delete k description => (a.delete now.memory k description).map .accepted
  | .deleteAll => (a.deleteAll now.memory).map fun _ ↦ .done
  | .lock password => (a.lock now.memory password).map .accepted
  | .unlock password => (a.unlock now.memory password).map .accepted
  | .sign k path data => (a.sign now k path data).map .signature
  | .listen l => (a.listen l).settle now.memory .done []
  | .unlisten l => (a.unlisten l).2.settle now.memory (.accepted (a.unlisten l).1) []

/-- Serves requests one after the other, each at its moment. Gives the agent at the end and what
came of each request. If nobody else tells the listeners anything, the memory of each moment is the
one that the outcome before has left; but it may be any. -/
def run (a : Agent κ π ι) : List (Moment μ × Request κ π ι) →
    Agent κ π ι × List (Outcome κ π ι μ Answer)
  | [] => (a, [])
  | (now, r) :: rest =>
    let o := a.serve now r
    let (last, outcomes) := o.agent.run rest
    (last, o :: outcomes)

end Agent

end SecureShell

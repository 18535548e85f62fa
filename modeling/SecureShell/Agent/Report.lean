import SecureShell.Key.Signature
import SecureShell.Log

/-!
# Reports of the agent

What an agent reports while it works. Keys appear by their fingerprints only.
-/

namespace SecureShell

/-- One hop on the way of a request that was forwarded. -/
structure ForwardingHop where
  /-- The name of the host that the request came through. -/
  hostname : String
  /-- The address of the host. -/
  address : String
  /-- The number of the connection's endpoint on the host. -/
  endpoint : UInt16
  deriving DecidableEq, Repr

/-- What is shown of a hop. -/
def ForwardingHop.description (h : ForwardingHop) : String :=
  h.hostname ++ " (" ++ h.address ++ ":" ++ toString h.endpoint.toNat ++ ")"

/-- Something that happened in an agent. -/
inductive AgentReport where
  /-- A key was not added because it is there already. -/
  | present (fingerprint : String)
  /-- A key was added. -/
  | added (fingerprint description : String)
  /-- A key was deleted. -/
  | deleted (fingerprint : String)
  /-- All keys were deleted. -/
  | deletedAll
  /-- The agent was locked. -/
  | locked
  /-- The agent was unlocked. -/
  | unlocked
  /-- The policy of a key does not allow its use. -/
  | refused (fingerprint : String)
  /-- A request came through a host. -/
  | forwarded (hop : ForwardingHop)
  /-- A private key gave no signature. -/
  | failed (fingerprint : String) (error : SignatureError)
  /-- A private key gave a signature. -/
  | signed (fingerprint : String)
  deriving DecidableEq, Repr

/-- How much a report matters, and what it says. -/
def AgentReport.record : AgentReport → LogRecord
  | .present k => ⟨.debug, "Key " ++ k ++ " already present"⟩
  | .added k description => ⟨.debug, "Added key " ++ k ++ " (" ++ description ++ ")"⟩
  | .deleted k => ⟨.debug, "Deleted key " ++ k⟩
  | .deletedAll => ⟨.debug, "Deleted all keys"⟩
  | .locked => ⟨.debug, "Agent locked"⟩
  | .unlocked => ⟨.debug, "Agent unlocked"⟩
  | .refused k => ⟨.debug, "Key " ++ k ++ " rejected by constraints"⟩
  | .forwarded hop => ⟨.debug, "Signing request forwarded via " ++ hop.description⟩
  | .failed k e => ⟨.warn, "Key " ++ k ++ " failed to sign: " ++ e.message⟩
  | .signed k => ⟨.debug, "Signed with key " ++ k⟩

end SecureShell

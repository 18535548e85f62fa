import SecureShell.Agent.Request
import SecureShell.Proofs.Agent.Keyring

/-!
# What one request does

What a request makes of the keyring, and which private key it calls, depends on the keyring alone:
listeners can take away the answer of a request but not its effect. So both are functions of the
keyring (`Keyring.after`, `Keyring.callsOf`), and all that a run does to the keys can be said
without listeners (`Agent.keyring_serve`, `Agent.calls_serve`).

A private key is called for at most one request at a time, and a call leaves its trace in the
record of the key and nowhere else (`Keyring.records_call`).
-/

namespace SecureShell

variable {κ π ι μ α : Type}

/-! ### Notification -/

section Notification

variable [Listener ι κ π μ]

section Step

variable {event : AgentEvent} {s : Keyring κ π} {m : μ} {l : ι}

/-- A listener that raises is the last to be told. -/
theorem notify_cons_of_raise (h : (Listener.tell l event s m).1 = true) (ls : List ι) :
    notify event s m (l :: ls) =
      ⟨[⟨l, event, s, true⟩], true, (Listener.tell l event s m).2⟩ := by
  rw [notify]
  generalize Listener.tell l event s m = told at h ⊢
  obtain ⟨raises, m'⟩ := told
  obtain rfl : raises = true := h
  rfl

/-- After a listener that does not raise the others are told, with the memory that it has left. -/
theorem notify_cons_of_calm (h : (Listener.tell l event s m).1 = false) (ls : List ι) :
    notify event s m (l :: ls) =
      let rest := notify event s (Listener.tell l event s m).2 ls
      { rest with deliveries := ⟨l, event, s, false⟩ :: rest.deliveries } := by
  rw [notify]
  generalize Listener.tell l event s m = told at h ⊢
  obtain ⟨raises, m'⟩ := told
  obtain rfl : raises = false := h
  rfl

end Step

/-- Whether one of the listeners raises when they are told of an event. -/
def Agent.raises (a : Agent κ π ι) (m : μ) (event : AgentEvent) : Bool :=
  (notify event a.keyring m a.listeners).raised

/-- The answer of a request is lost if a listener raises, and only then. -/
theorem Agent.answer_announce (a : Agent κ π ι) (m : μ) (event : AgentEvent) (x : α)
    (log : List AgentReport) :
    (a.announce m event x log).answer = if a.raises m event then none else some x := rfl

end Notification

/-! ### Effects on the keyring -/

section Policies

variable [Policy π]

/-- Whether a policy allows a use at a reading of the clock. -/
def Policy.admits (p : π) (now : ℕ) : Bool := canUse p && !hasTimedOut p now

/-- The record of a public key, if its policy allows a use at a reading of the clock. -/
def Keyring.granted (s : Keyring κ π) (now : ℕ) (k : Identity) : Option (KeyRecord κ π) :=
  (s.record? k).filter fun r ↦ Policy.admits r.policy now

theorem Keyring.granted_eq_some_iff {s : Keyring κ π} {now : ℕ} {k : Identity}
    {r : KeyRecord κ π} :
    s.granted now k = some r ↔ s.record? k = some r ∧ Policy.admits r.policy now = true :=
  Option.filter_eq_some_iff

/-- For a stored key the policy of its record decides. -/
theorem Keyring.granted_of_record? {s : Keyring κ π} {k : Identity} {r : KeyRecord κ π}
    (h : s.record? k = some r) (now : ℕ) :
    s.granted now k = if Policy.admits r.policy now = true then some r else none := by
  rw [granted, h, Option.filter_some]

end Policies

variable [SigningKey κ] [Policy π]

/-- A record after its private key was called to sign. -/
def KeyRecord.called (r : KeyRecord κ π) (data : Bytes) : KeyRecord κ π :=
  { r with
    privateKey := (SigningKey.sign r.privateKey data).2
    policy := Policy.consume r.policy }

namespace Keyring

variable {s : Keyring κ π} {now : ℕ} {k : Identity} {r : KeyRecord κ π}

/-- The keyring after a request for a signature. -/
def call (s : Keyring κ π) (now : ℕ) (k : Identity) (data : Bytes) : Keyring κ π :=
  match s.granted now k with
  | none => s
  | some r => s.renew k (r.called data).privateKey (r.called data).policy

/-- The keyring after a request. -/
def after (s : Keyring κ π) (now : ℕ) : Request κ π ι → Keyring κ π
  | .add r => (s.insert r).2
  | .delete k description => (s.remove k description).2
  | .deleteAll => s.clear
  | .lock password => (s.lock password).2
  | .unlock password => (s.unlock password).2
  | .sign k _ data => s.call now k data
  | .listen _ | .unlisten _ => s

/-- The calls of private keys for a request. -/
def callsOf (s : Keyring κ π) (now : ℕ) : Request κ π ι → List (SigningCall κ)
  | .sign k _ data => ((s.granted now k).map fun r ↦ ⟨k, r.privateKey, data⟩).toList
  | _ => []

/-- A call changes neither public keys nor descriptions, nor their order. -/
theorem publicKeys_call (s : Keyring κ π) (now : ℕ) (k : Identity) (data : Bytes) :
    (s.call now k data).publicKeys = s.publicKeys := by
  rw [call]
  split
  · rfl
  · exact publicKeys_renew _ _ _ _

/-- **A call leaves its trace in the record of its key** and in no other. -/
theorem records_call (hs : s.Distinct) (h : s.granted now k = some r) (data : Bytes) :
    (s.call now k data).records =
      s.records.map fun q ↦ if q.publicKey = k then q.called data else q := by
  obtain ⟨hr, -⟩ := granted_eq_some_iff.1 h
  rw [call, h]
  show (s.renew k _ _).records = _
  rw [records_renew hs]
  refine List.map_congr_left fun q hq ↦ ?_
  by_cases hk : q.publicKey = k
  · have hqr : s.record? k = some q := (record?_eq_some_iff hs).2 ⟨hq, hk⟩
    obtain rfl : q = r := Option.some.inj (hqr.symm.trans hr)
    rw [if_pos hk, if_pos hk]
    rfl
  · rw [if_neg hk, if_neg hk]

theorem distinct_call (hs : s.Distinct) (now : ℕ) (k : Identity) (data : Bytes) :
    (s.call now k data).Distinct := by
  rw [Distinct, keys_eq_map_publicKeys, publicKeys_call, ← keys_eq_map_publicKeys]
  exact hs

/-- **Every request leaves the public keys distinct.** -/
theorem distinct_after (hs : s.Distinct) (now : ℕ) (q : Request κ π ι) :
    (s.after now q).Distinct := by
  cases q with
  | add r => exact distinct_insert hs r
  | delete k d => exact distinct_remove hs k d
  | deleteAll => exact distinct_empty
  | lock password =>
    rw [after, Distinct, keys, records_lock]
    exact hs
  | unlock password =>
    rw [after, Distinct, keys, records_unlock]
    exact hs
  | sign k path data => exact distinct_call hs now k data
  | listen l => exact hs
  | unlisten l => exact hs

end Keyring

namespace Agent

variable [Listener ι κ π μ] {a : Agent κ π ι} {now : Moment μ} {k : Identity}
  {r : KeyRecord κ π}

/-! ### Signatures -/

/-- A request for a signature that is not granted: the error depends on whether there is such a key
at all, and nothing else comes of it. -/
theorem sign_of_not_granted (h : a.keyring.granted now.clock k = none) (path : List ForwardingHop)
    (data : Bytes) :
    ∃ log, a.sign now k path data =
      a.settle now.memory (.error (if k ∈ a.keyring.keys then .limitReached else .noSuchKey))
        log := by
  rcases hr : a.keyring.record? k with - | r
  · refine ⟨[], ?_⟩
    rw [sign, hr, if_neg (Keyring.record?_eq_none_iff.1 hr)]
  · have hk : k ∈ a.keyring.keys := by
      by_contra hk
      rw [Keyring.record?_eq_none_iff.2 hk] at hr
      cases hr
    have hrefused : (!Policy.canUse r.policy || Policy.hasTimedOut r.policy now.clock) = true := by
      rw [Keyring.granted_of_record? hr] at h
      by_contra hadmits
      rw [if_pos (by simpa [Policy.admits] using hadmits)] at h
      cases h
    refine ⟨[.refused k.fingerprint], ?_⟩
    rw [sign, hr, if_pos hk]
    exact if_pos hrefused

/-- The private key is called, whatever comes of it. -/
theorem sign_of_granted (h : a.keyring.granted now.clock k = some r) (path : List ForwardingHop)
    (data : Bytes) :
    ∃ o : Outcome κ π ι μ (Except AgentError Signature),
      a.sign now k path data = o.calling ⟨k, r.privateKey, data⟩ ∧ o.calls = [] ∧
        o.agent = { a with keyring := a.keyring.call now.clock k data } ∧
        o.answer = match (SigningKey.sign r.privateKey data).1 with
          | .error _ => some (.error .signingFailed)
          | .ok s =>
            if o.agent.raises now.memory (.used hashAndSign) then none else some (.ok s) := by
  obtain ⟨hr, hadmits⟩ := Keyring.granted_eq_some_iff.1 h
  have hallowed : ¬(!Policy.canUse r.policy || Policy.hasTimedOut r.policy now.clock) = true := by
    simpa [Policy.admits] using hadmits
  have hcall : a.keyring.call now.clock k data =
      a.keyring.renew k (SigningKey.sign r.privateKey data).2 (Policy.consume r.policy) := by
    rw [Keyring.call, h]
    rfl
  rw [sign, hr, hcall]
  simp only [if_neg hallowed]
  rcases SigningKey.sign r.privateKey data with ⟨e | sig, x⟩
  · exact ⟨_, rfl, rfl, rfl, rfl⟩
  · exact ⟨_, rfl, rfl, rfl, answer_announce _ _ _ _ _⟩

/-! ### Requests -/

variable [DecidableEq ι]

/-- The listeners after a request. -/
def listenersAfter (a : Agent κ π ι) : Request κ π ι → List ι
  | .listen l => a.listeners ++ [l]
  | .unlisten l => a.listeners.erase l
  | _ => a.listeners

/-- **What a request makes of an agent.** Its keyring does not depend on the listeners. -/
theorem agent_serve (a : Agent κ π ι) (now : Moment μ) (q : Request κ π ι) :
    (a.serve now q).agent = ⟨a.keyring.after now.clock q, a.listenersAfter q⟩ := by
  cases q with
  | add r =>
    show (a.add now.memory r).agent = ⟨(a.keyring.insert r).2, a.listeners⟩
    rw [add]
    simp only [Keyring.insert_eq]
    by_cases h : r.publicKey ∈ a.keyring.keys
    · simp only [if_pos h]
      rfl
    · simp only [if_neg h]
      rfl
  | delete k d =>
    show (a.delete now.memory k d).agent = ⟨(a.keyring.remove k d).2, a.listeners⟩
    rw [delete]
    simp only [Keyring.remove]
    by_cases h : a.keyring.description? k = some d
    · simp only [if_pos h]
      rfl
    · simp only [if_neg h]
      rfl
  | deleteAll => rfl
  | lock password =>
    show (a.lock now.memory password).agent = ⟨(a.keyring.lock password).2, a.listeners⟩
    rw [lock]
    simp only [Keyring.lock]
    rcases a.keyring.password with - | p
    · rfl
    · rfl
  | unlock password =>
    show (a.unlock now.memory password).agent = ⟨(a.keyring.unlock password).2, a.listeners⟩
    rw [unlock]
    simp only [Keyring.unlock]
    rcases a.keyring.password with - | p
    · rfl
    · by_cases h : p.agrees (utf8 password) = true
      · simp only [if_pos h]
        rfl
      · simp only [if_neg h]
        rfl
  | sign k path data =>
    show (a.sign now k path data).agent = ⟨a.keyring.call now.clock k data, a.listeners⟩
    rcases h : a.keyring.granted now.clock k with - | r
    · obtain ⟨log, hsign⟩ := sign_of_not_granted h path data
      rw [hsign, Keyring.call, h]
      rfl
    · obtain ⟨o, hsign, -, hagent, -⟩ := sign_of_granted h path data
      rw [hsign]
      exact hagent
  | listen l => rfl
  | unlisten l => rfl

theorem keyring_serve (a : Agent κ π ι) (now : Moment μ) (q : Request κ π ι) :
    (a.serve now q).agent.keyring = a.keyring.after now.clock q := by
  rw [agent_serve]

/-- **Which private keys a request calls**: one at most, and only to sign. -/
theorem calls_serve (a : Agent κ π ι) (now : Moment μ) (q : Request κ π ι) :
    (a.serve now q).calls = a.keyring.callsOf now.clock q := by
  cases q with
  | add r =>
    show (a.add now.memory r).calls = []
    rw [add]
    split <;> rfl
  | delete k d =>
    show (a.delete now.memory k d).calls = []
    rw [delete]
    split <;> rfl
  | deleteAll => rfl
  | lock password =>
    show (a.lock now.memory password).calls = []
    rw [lock]
    split <;> rfl
  | unlock password =>
    show (a.unlock now.memory password).calls = []
    rw [unlock]
    split <;> rfl
  | sign k path data =>
    show (a.sign now k path data).calls = _
    rw [Keyring.callsOf]
    rcases h : a.keyring.granted now.clock k with - | r
    · obtain ⟨log, hsign⟩ := sign_of_not_granted h path data
      rw [hsign]
      rfl
    · obtain ⟨o, hsign, hcalls, -⟩ := sign_of_granted h path data
      rw [hsign, Outcome.calling, hcalls]
      rfl
  | listen l => rfl
  | unlisten l => rfl

end Agent

end SecureShell

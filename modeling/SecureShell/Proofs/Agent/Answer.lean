import SecureShell.Proofs.Agent.Serve

/-!
# What a request is answered, and who is told

A request either settles, and nobody is told, or it brings about a change, and all listeners are
told of it (`Agent.serve_cases`). Which of the two it is, and what the answer is, can be said of the
keyring as it was before (`Keyring.event?`, `Agent.answerTo`); whether the request was accepted and
whether listeners are told is one and the same question.
-/

namespace SecureShell

variable {κ π ι μ : Type} [SigningKey κ] [Policy π]

namespace Keyring

/-- What comes of a request for a signature. An error says what stood in the way: there is no such
key, its policy does not allow a use, or its private key gave no signature. -/
def signed (s : Keyring κ π) (now : ℕ) (k : Identity) (data : Bytes) :
    Except AgentError Signature :=
  match s.granted now k with
  | none => .error (if k ∈ s.keys then .limitReached else .noSuchKey)
  | some r => (SigningKey.sign r.privateKey data).1.mapError fun _ ↦ .signingFailed

/-- The change that a request brings about, as listeners are told of it. -/
def event? (s : Keyring κ π) (now : ℕ) : Request κ π ι → Option AgentEvent
  | .add r => if r.publicKey ∉ s.keys then some .added else none
  | .delete k description => if s.description? k = some description then some .deleted else none
  | .deleteAll => some .deletedAll
  | .lock _ => if s.custody = none then some .locked else none
  | .unlock password => if s.custody = some (utf8 password) then some .unlocked else none
  | .sign k _ data => if (s.signed now k data).isOk then some (.used Agent.hashAndSign) else none
  | .listen _ | .unlisten _ => none

end Keyring

namespace Agent

variable [DecidableEq ι] [Listener ι κ π μ] {a : Agent κ π ι}

/-- The answer to a request, unless a listener raises. -/
def answerTo (a : Agent κ π ι) (now : ℕ) : Request κ π ι → Answer
  | .add r => .accepted (r.publicKey ∉ a.keyring.keys)
  | .delete k description => .accepted (a.keyring.description? k = some description)
  | .deleteAll | .listen _ => .done
  | .lock _ => .accepted (a.keyring.custody = none)
  | .unlock password => .accepted (a.keyring.custody = some (utf8 password))
  | .sign k _ data => .signature (a.keyring.signed now k data)
  | .unlisten l => .accepted (l ∈ a.listeners)

/-- How a request ends if nobody is told of it. -/
structure Settles (a : Agent κ π ι) (now : Moment μ) (q : Request κ π ι) : Prop where
  /-- There is no change to tell of. -/
  unchanged : a.keyring.event? now.clock q = none
  /-- There is an answer. -/
  answer : (a.serve now q).answer = some (a.answerTo now.clock q)
  /-- No listener is told. -/
  deliveries : (a.serve now q).deliveries = []

/-- How a request ends of which all listeners are told. -/
structure Announces (a : Agent κ π ι) (now : Moment μ) (q : Request κ π ι)
    (event : AgentEvent) : Prop where
  /-- This is the change. -/
  changed : a.keyring.event? now.clock q = some event
  /-- There is an answer unless a listener raises. -/
  answer : (a.serve now q).answer =
    if (a.serve now q).agent.raises now.memory event then none
    else some (a.answerTo now.clock q)
  /-- Those who are told stay registered. -/
  listeners : (a.serve now q).agent.listeners = a.listeners
  /-- The listeners are told one after the other, and see the keyring after the request. -/
  deliveries : (a.serve now q).deliveries =
    (notify event (a.serve now q).agent.keyring now.memory a.listeners).deliveries
  /-- They keep what they have come to remember. -/
  memory : (a.serve now q).memory =
    (notify event (a.serve now q).agent.keyring now.memory a.listeners).memory

section Ends

variable {α : Type} {b : Agent κ π ι} {now : Moment μ} {q : Request κ π ι} {x : α}
  {f : α → Answer} {log : List AgentReport} {calls : List (SigningCall κ)}

theorem Settles.of_settle
    (hserve : a.serve now q = { (b.settle now.memory x log).map f with calls := calls })
    (hunchanged : a.keyring.event? now.clock q = none)
    (hanswer : f x = a.answerTo now.clock q) :
    a.Settles now q := by
  refine ⟨hunchanged, ?_, ?_⟩
  · rw [hserve, ← hanswer]
    rfl
  · rw [hserve]
    rfl

theorem Announces.of_announce {event : AgentEvent}
    (hserve : a.serve now q = { (b.announce now.memory event x log).map f with calls := calls })
    (hlisteners : b.listeners = a.listeners)
    (hchanged : a.keyring.event? now.clock q = some event)
    (hanswer : f x = a.answerTo now.clock q) : a.Announces now q event := by
  have hagent : (a.serve now q).agent = b := by
    rw [hserve]
    rfl
  refine ⟨hchanged, ?_, by rw [hagent, hlisteners], ?_, ?_⟩
  · have htold : (a.serve now q).answer = (b.announce now.memory event x log).answer.map f := by
      rw [hserve]
      rfl
    rw [htold, hagent, answer_announce, ← hanswer]
    split <;> rfl
  · rw [hagent, hserve, ← hlisteners]
    rfl
  · rw [hagent, hserve, ← hlisteners]
    rfl

/-- A request that is accepted under a condition, and refused otherwise. -/
theorem cases_of_condition {p : Prop} [Decidable p] {event : AgentEvent} (s : Keyring κ π)
    (yes no : List AgentReport)
    (hserve : a.serve now q = (if p then announce ⟨s, a.listeners⟩ now.memory event true yes
      else a.settle now.memory false no).map .accepted)
    (hevent : a.keyring.event? now.clock q = if p then some event else none)
    (hanswer : .accepted p = a.answerTo now.clock q) :
    a.Settles now q ∨ ∃ event, a.Announces now q event := by
  by_cases hp : p
  · rw [if_pos hp] at hserve hevent
    refine Or.inr ⟨event, .of_announce hserve rfl hevent ?_⟩
    rw [← hanswer, decide_eq_true hp]
  · rw [if_neg hp] at hserve hevent
    refine Or.inl (.of_settle hserve hevent ?_)
    rw [← hanswer, decide_eq_false hp]

end Ends

section Signatures

variable {k : Identity} {path : List ForwardingHop} {data : Bytes} {now : Moment μ}

/-- Without a signature there is nothing to tell of, whatever the reason is. -/
theorem settles_of_signed_eq_error {b : Agent κ π ι} {e : AgentError} {log : List AgentReport}
    {calls : List (SigningCall κ)} (hsigned : a.keyring.signed now.clock k data = .error e)
    (hserve : a.serve now (.sign k path data) =
      { (b.settle now.memory (.error e) log).map .signature with calls := calls }) :
    a.Settles now (.sign k path data) := by
  refine .of_settle hserve ?_ ?_
  · rw [Keyring.event?, hsigned]
    rfl
  · rw [answerTo, hsigned]

/-- Listeners are told of a signature, and not of a request for one. -/
theorem sign_cases :
    a.Settles now (.sign k path data) ∨ ∃ event, a.Announces now (.sign k path data) event := by
  have hsign : a.serve now (.sign k path data) = (a.sign now k path data).map .signature := rfl
  rcases hg : a.keyring.granted now.clock k with - | r
  · obtain ⟨log, hrefused⟩ := sign_of_not_granted hg path data
    rw [hrefused] at hsign
    exact Or.inl (settles_of_signed_eq_error (by rw [Keyring.signed, hg]) hsign)
  -- The private key is called, and it is for the key to say whether there is a signature.
  · obtain ⟨hr, hadmits⟩ := Keyring.granted_eq_some_iff.1 hg
    have hallowed : ¬(!Policy.canUse r.policy || Policy.hasTimedOut r.policy now.clock) = true := by
      simpa [Policy.admits] using hadmits
    have hsigned : a.keyring.signed now.clock k data =
        (SigningKey.sign r.privateKey data).1.mapError fun _ ↦ .signingFailed := by
      rw [Keyring.signed, hg]
    rw [sign, hr] at hsign
    simp only [if_neg hallowed] at hsign
    rcases hs : SigningKey.sign r.privateKey data with ⟨e | sig, key⟩
    · rw [hs] at hsign hsigned
      exact Or.inl (settles_of_signed_eq_error hsigned hsign)
    · rw [hs] at hsign hsigned
      refine Or.inr ⟨_, .of_announce hsign rfl ?_ ?_⟩
      · rw [Keyring.event?, hsigned]
        rfl
      · rw [answerTo, hsigned]
        rfl

end Signatures

/-- **A request settles or is announced.** -/
theorem serve_cases (a : Agent κ π ι) (now : Moment μ) (q : Request κ π ι) :
    a.Settles now q ∨ ∃ event, a.Announces now q event := by
  cases q with
  | add r =>
    refine cases_of_condition (a.keyring.insert r).2
      [.added r.publicKey.fingerprint r.description] [.present r.publicKey.fingerprint] ?_ rfl rfl
    show (a.add now.memory r).map _ = _
    rw [add, Keyring.insert_eq]
    by_cases hr : r.publicKey ∈ a.keyring.keys
    · rw [if_pos hr, if_neg (not_not.2 hr)]
    · rw [if_neg hr, if_pos hr]
  | delete k d =>
    refine cases_of_condition (a.keyring.remove k d).2 [.deleted k.fingerprint] [] ?_ rfl rfl
    show (a.delete now.memory k d).map _ = _
    rw [delete, Keyring.remove]
    split_ifs <;> rfl
  | deleteAll => exact Or.inr ⟨_, .of_announce rfl rfl rfl rfl⟩
  | lock password =>
    refine cases_of_condition (a.keyring.lock password).2 [.locked] [] ?_ rfl rfl
    show (a.lock now.memory password).map _ = _
    rw [lock, Keyring.lock_eq]
    split_ifs <;> rfl
  | unlock password =>
    refine cases_of_condition (a.keyring.unlock password).2 [.unlocked] [] ?_ rfl rfl
    show (a.unlock now.memory password).map _ = _
    rw [unlock, Keyring.unlock_eq]
    split_ifs <;> rfl
  | sign k path data => exact sign_cases
  | listen l => exact Or.inl (.of_settle rfl rfl rfl)
  | unlisten l => exact Or.inl (.of_settle rfl rfl (by simp [answerTo, unlisten]))

/-- The keyring decides which of the two it is. -/
theorem settles_of_event?_eq_none (now : Moment μ) (q : Request κ π ι)
    (h : a.keyring.event? now.clock q = none) : a.Settles now q := by
  rcases serve_cases a now q with hsettles | ⟨event, hannounces⟩
  · exact hsettles
  · rw [hannounces.changed] at h
    cases h

theorem announces_of_event?_eq_some (now : Moment μ) (q : Request κ π ι) {event : AgentEvent}
    (h : a.keyring.event? now.clock q = some event) : a.Announces now q event := by
  rcases serve_cases a now q with hsettles | ⟨event', hannounces⟩
  · rw [hsettles.unchanged] at h
    cases h
  · obtain rfl := Option.some.inj (hannounces.changed.symm.trans h)
    exact hannounces

end Agent

end SecureShell

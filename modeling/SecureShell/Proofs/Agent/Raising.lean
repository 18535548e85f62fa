import SecureShell.Agent.Guarded
import SecureShell.Proofs.Agent.Notice

/-!
# Listeners that raise

A request has changed the agent before its listeners are told, and what it has changed does not
depend on them. So one that raises takes away the answer and keeps those behind it from being told,
and that is all: except for what listeners remember, the rest of the outcome is the one that there
would have been without it (`Agent.serve_of_raise`).

The lock that was held is poisoned from then on. It is recovered whenever it is taken, so nobody
can tell the agent from one whose lock is not poisoned (`GuardedAgent.run_eq`).
-/

namespace SecureShell

variable {κ π ι μ : Type}

/-! ### Notification -/

/-- **Those in front of a listener that raises are told, and so is the listener itself**; those
behind it are not. -/
theorem notify_of_raise [Listener ι κ π μ] {event : AgentEvent} {s : Keyring κ π} {m : μ}
    {front : List ι} {l : ι} (hfront : (notify event s m front).raised = false)
    (hraises : (Listener.tell l event s (notify event s m front).memory).1 = true)
    (back : List ι) :
    notify event s m (front ++ l :: back) =
      ⟨front.map (fun x ↦ ⟨x, event, s, false⟩) ++ [⟨l, event, s, true⟩], true,
        (Listener.tell l event s (notify event s m front).memory).2⟩ := by
  induction front generalizing m with
  | nil => exact notify_cons_of_raise hraises back
  | cons x front ih =>
    rcases htell : (Listener.tell x event s m).1 with - | -
    · rw [notify_cons_of_calm htell] at hfront hraises ⊢
      rw [List.cons_append, notify_cons_of_calm htell, ih hfront hraises]
      rfl
    · rw [notify_cons_of_raise htell] at hfront
      cases hfront

/-! ### Reports -/

/-- What is reported of a request. -/
def Keyring.reportsOf [SigningKey κ] [Policy π] (s : Keyring κ π) (now : ℕ) :
    Request κ π ι → List AgentReport
  | .add r =>
    if r.publicKey ∈ s.keys then [.present r.publicKey.fingerprint]
    else [.added r.publicKey.fingerprint r.description]
  | .delete k d => if s.description? k = some d then [.deleted k.fingerprint] else []
  | .deleteAll => [.deletedAll]
  | .lock _ => if s.custody = none then [.locked] else []
  | .unlock password => if s.custody = some (utf8 password) then [.unlocked] else []
  | .sign k path data =>
    match s.record? k with
    | none => []
    | some r =>
      if Policy.admits r.policy now then
        path.map .forwarded ++
          [match (SigningKey.sign r.privateKey data).1 with
            | .error e => .failed k.fingerprint e
            | .ok _ => .signed k.fingerprint]
      else [.refused k.fingerprint]
  | .listen _ | .unlisten _ => []

/-! ### One request -/

/-- The same listeners, except that they never raise. -/
@[reducible]
def Listener.calmed [Listener ι κ π μ] : Listener ι κ π μ :=
  ⟨fun l event s m ↦ (false, (tell l event s m).2)⟩

namespace Agent

variable [SigningKey κ] [Policy π] [DecidableEq ι] [Listener ι κ π μ]

/-- **The reports of a request do not depend on the listeners.** -/
theorem log_serve (a : Agent κ π ι) (now : Moment μ) (q : Request κ π ι) :
    (a.serve now q).log = a.keyring.reportsOf now.clock q := by
  cases q with
  | add r =>
    show (a.add now.memory r).log = _
    rw [add, Keyring.insert_eq, Keyring.reportsOf]
    split_ifs <;> rfl
  | delete k d =>
    show (a.delete now.memory k d).log = _
    rw [delete, Keyring.remove, Keyring.reportsOf]
    split_ifs <;> rfl
  | deleteAll => rfl
  | lock password =>
    show (a.lock now.memory password).log = _
    rw [lock, Keyring.lock_eq, Keyring.reportsOf]
    split_ifs <;> rfl
  | unlock password =>
    show (a.unlock now.memory password).log = _
    rw [unlock, Keyring.unlock_eq, Keyring.reportsOf]
    split_ifs <;> rfl
  | sign k path data =>
    show (a.sign now k path data).log = _
    rw [sign, Keyring.reportsOf]
    rcases a.keyring.record? k with - | r
    · rfl
    · have hadmits : (!Policy.canUse r.policy || Policy.hasTimedOut r.policy now.clock) =
          !Policy.admits r.policy now.clock := by
        simp [Policy.admits]
      simp only [hadmits]
      rcases Policy.admits r.policy now.clock with - | -
      · rfl
      · rcases SigningKey.sign r.privateKey data with ⟨e | sig, x⟩
        · rfl
        · rfl
  | listen l => rfl
  | unlisten l => rfl

section Calm

/-- What would come of a request if no listener raised. -/
def serveCalm (a : Agent κ π ι) (now : Moment μ) (q : Request κ π ι) : Outcome κ π ι μ Answer :=
  letI : Listener ι κ π μ := Listener.calmed
  a.serve now q

variable (a : Agent κ π ι) (now : Moment μ) (q : Request κ π ι)

theorem agent_serveCalm :
    (a.serveCalm now q).agent = ⟨a.keyring.after now.clock q, a.listenersAfter q⟩ :=
  letI : Listener ι κ π μ := Listener.calmed
  a.agent_serve now q

theorem calls_serveCalm : (a.serveCalm now q).calls = a.keyring.callsOf now.clock q :=
  letI : Listener ι κ π μ := Listener.calmed
  a.calls_serve now q

theorem log_serveCalm : (a.serveCalm now q).log = a.keyring.reportsOf now.clock q :=
  letI : Listener ι κ π μ := Listener.calmed
  a.log_serve now q

/-- If no listener raises all are told of a change, and there is an answer. -/
theorem serveCalm_of_event? {event : AgentEvent}
    (h : a.keyring.event? now.clock q = some event) :
    (a.serveCalm now q).answer = some (a.answerTo now.clock q) ∧
      (a.serveCalm now q).deliveries =
        a.listeners.map fun l ↦ ⟨l, event, (a.serveCalm now q).agent.keyring, false⟩ := by
  let _ : Listener ι κ π μ := Listener.calmed
  have hquiet : a.Quiet [(now, q)] := quiet_of_calm (fun _ _ _ _ ↦ rfl) _ _
  obtain ⟨hanswer, hdeliveries⟩ := answer_and_deliveries_of_quiet hquiet.head
  rw [hanswer, Option.bind_some, change?_answerTo, h] at hdeliveries
  exact ⟨hanswer, hdeliveries⟩

end Calm

variable {a : Agent κ π ι} {now : Moment μ} {q : Request κ π ι} {event : AgentEvent}

/-- **Listeners decide on the answer, on who is told and on what they remember**, and on nothing
else. -/
theorem serve_eq_serveCalm (a : Agent κ π ι) (now : Moment μ) (q : Request κ π ι) :
    a.serve now q = { a.serveCalm now q with
      answer := (a.serve now q).answer
      memory := (a.serve now q).memory
      deliveries := (a.serve now q).deliveries } := by
  have hagent : (a.serve now q).agent = (a.serveCalm now q).agent := by
    rw [agent_serve, agent_serveCalm]
  have hcalls : (a.serve now q).calls = (a.serveCalm now q).calls := by
    rw [calls_serve, calls_serveCalm]
  have hlog : (a.serve now q).log = (a.serveCalm now q).log := by
    rw [log_serve, log_serveCalm]
  exact (Outcome.mk.injEq ..).mpr ⟨rfl, hagent, rfl, rfl, hcalls, hlog⟩

/-- **What a listener that raises changes**: there is no answer, those behind it are not told, and
they remember nothing of it. -/
theorem serve_of_raise (hevent : a.keyring.event? now.clock q = some event)
    {front back : List ι} {l : ι} (hlisteners : a.listeners = front ++ l :: back)
    (hfront : (notify event (a.keyring.after now.clock q) now.memory front).raised = false)
    (hraises : (Listener.tell l event (a.keyring.after now.clock q)
      (notify event (a.keyring.after now.clock q) now.memory front).memory).1 = true) :
    a.serve now q = { a.serveCalm now q with
      answer := none
      memory := (Listener.tell l event (a.keyring.after now.clock q)
        (notify event (a.keyring.after now.clock q) now.memory front).memory).2
      deliveries := front.map (fun x ↦ ⟨x, event, a.keyring.after now.clock q, false⟩) ++
        [⟨l, event, a.keyring.after now.clock q, true⟩] } := by
  have hannounces := announces_of_event?_eq_some now q hevent
  have htold := notify_of_raise hfront hraises back
  have hanswer : (a.serve now q).answer = none := by
    rw [hannounces.answer, raises, hannounces.listeners, keyring_serve, hlisteners, htold]
    rfl
  have hdeliveries := hannounces.deliveries
  have hmemory := hannounces.memory
  rw [keyring_serve, hlisteners, htold] at hdeliveries hmemory
  rw [serve_eq_serveCalm, hanswer, hdeliveries, hmemory]

end Agent

/-! ### The lock -/

/-- A lock is recovered, poisoned or not. -/
theorem Guarded.recover_eq {α : Type} (g : Guarded α) : g.recover = g.value := by
  rw [recover, acquire]
  rcases g.poisoned with - | - <;> rfl

namespace GuardedAgent

/-- **A question is answered from the agent**, whether its lock is poisoned or not. -/
theorem ask_eq {α : Type} (g : GuardedAgent κ π ι) (question : Agent κ π ι → α) :
    g.ask question = question g.value := by
  rw [ask, Guarded.recover_eq]

variable [SigningKey κ] [Policy π] [DecidableEq ι] [Listener ι κ π μ]

/-- **A poisoned lock makes no difference to a run.** -/
theorem run_eq (g : GuardedAgent κ π ι) (rs : List (Moment μ × Request κ π ι)) :
    ((g.run rs).1.recover, (g.run rs).2) = g.recover.run rs := by
  induction rs generalizing g with
  | nil => rfl
  | cons q rs ih =>
    have hnext : (g.serve q.1 q.2).2.recover = (g.recover.serve q.1 q.2).agent :=
      Guarded.recover_eq _
    have hrest := ih (g.serve q.1 q.2).2
    rw [hnext] at hrest
    show ((((g.serve q.1 q.2).2.run rs).1.recover,
      g.recover.serve q.1 q.2 :: ((g.serve q.1 q.2).2.run rs).2) : _ × _) =
        (((g.recover.serve q.1 q.2).agent.run rs).1,
          g.recover.serve q.1 q.2 :: ((g.recover.serve q.1 q.2).agent.run rs).2)
    rw [← hrest]

/-- Nobody can tell two agents apart of which only one has a poisoned lock. -/
theorem run_congr {g h : GuardedAgent κ π ι} (hvalue : g.value = h.value)
    (rs : List (Moment μ × Request κ π ι)) :
    (g.run rs).2 = (h.run rs).2 ∧ (g.run rs).1.recover = (h.run rs).1.recover := by
  have hrun : ((g.run rs).1.recover, (g.run rs).2) = ((h.run rs).1.recover, (h.run rs).2) := by
    rw [run_eq, run_eq, Guarded.recover_eq, Guarded.recover_eq, hvalue]
  exact ⟨(Prod.mk.inj hrun).2, (Prod.mk.inj hrun).1⟩

/-- **A listener that raises does no damage.** Take an agent behind a lock, whatever has happened to
it, a request that listeners are told of, and the first of them to raise. Had it not raised there
would have been an answer, and all would have been told. As it is there is no answer, and those up
to this listener have been told, each once; everything else is the same: the keyring with its
records, policies and password, the listeners, the calls of private keys and the reports. What the
listeners remember is what the one that raised has left. The lock is poisoned, but every later run
gives the same outcomes and leads to the same agent as one that starts from there with a lock that
is not, and every question after it has the same answer, whether listeners still raise then or
not and whatever they remember. -/
theorem raise_doesNoDamage (g : GuardedAgent κ π ι) {now : Moment μ} {q : Request κ π ι}
    {event : AgentEvent} (hevent : g.recover.keyring.event? now.clock q = some event)
    {front back : List ι} {l : ι} (hlisteners : g.recover.listeners = front ++ l :: back)
    (hfront : (notify event (g.recover.keyring.after now.clock q) now.memory front).raised = false)
    (hraises : (Listener.tell l event (g.recover.keyring.after now.clock q)
      (notify event (g.recover.keyring.after now.clock q) now.memory front).memory).1 = true) :
    let calm := g.recover.serveCalm now q
    let raised := g.serve now q
    let unpoisoned : GuardedAgent κ π ι := .fresh calm.agent
    calm.answer = some (g.recover.answerTo now.clock q) ∧
    calm.deliveries = g.recover.listeners.map (fun x ↦ ⟨x, event, calm.agent.keyring, false⟩) ∧
    raised.1 = { calm with
      answer := none
      memory := (Listener.tell l event calm.agent.keyring
        (notify event calm.agent.keyring now.memory front).memory).2
      deliveries := front.map (fun x ↦ ⟨x, event, calm.agent.keyring, false⟩) ++
        [⟨l, event, calm.agent.keyring, true⟩] } ∧
    raised.2 = ⟨calm.agent, true⟩ ∧
    ∀ {ν : Type} [Listener ι κ π ν] (rs : List (Moment ν × Request κ π ι)),
      (raised.2.run rs).2 = (unpoisoned.run rs).2 ∧
      (raised.2.run rs).1.recover = (unpoisoned.run rs).1.recover ∧
      ∀ {α : Type} (question : Agent κ π ι → α),
        (raised.2.run rs).1.ask question = (unpoisoned.run rs).1.ask question := by
  intro calm raised unpoisoned
  have hkeyring : calm.agent.keyring = g.recover.keyring.after now.clock q := by
    rw [Agent.agent_serveCalm]
  have hserve : raised.1 = { calm with
      answer := none
      memory := (Listener.tell l event calm.agent.keyring
        (notify event calm.agent.keyring now.memory front).memory).2
      deliveries := front.map (fun x ↦ ⟨x, event, calm.agent.keyring, false⟩) ++
        [⟨l, event, calm.agent.keyring, true⟩] } := by
    rw [hkeyring]
    exact Agent.serve_of_raise hevent hlisteners hfront hraises
  have hguarded : raised.2 = ⟨calm.agent, true⟩ := by
    show (⟨raised.1.agent, g.poisoned || raised.1.answer.isNone⟩ : GuardedAgent κ π ι) = _
    rw [hserve]
    exact congrArg (Guarded.mk calm.agent) (Bool.or_true g.poisoned)
  obtain ⟨hanswer, hdeliveries⟩ := Agent.serveCalm_of_event? g.recover now q hevent
  refine ⟨hanswer, hdeliveries, hserve, hguarded, fun rs ↦ ?_⟩
  have hvalue : raised.2.value = unpoisoned.value := by
    rw [hguarded]
    rfl
  obtain ⟨houtcomes, hrecover⟩ := run_congr hvalue rs
  exact ⟨houtcomes, hrecover, fun question ↦ congrArg question hrecover⟩

/-! ### A listener that is told again -/

/-- A listener that raises if it has been told before. -/
structure Alarm where
  /-- Which one it is. -/
  number : ℕ
  deriving DecidableEq

/-- Alarms remember who has been told. -/
instance {κ π : Type} : Listener Alarm κ π (List Alarm) :=
  ⟨fun l _ _ told ↦ (l ∈ told, told ++ [l])⟩

/-- An agent with a key that may be used once, and with four registrations, of which the third is
one of the first listener again. -/
def alarmed : GuardedAgent Ed25519SigningKey UsageLimits Alarm :=
  .fresh ⟨⟨[Agent.watchedRecord], none⟩, [⟨1⟩, ⟨2⟩, ⟨1⟩, ⟨3⟩]⟩

/-- The signature is lost when the first listener is told again, and the third listener hears
nothing of it; the use is recorded all the same, so the key is refused from then on. -/
theorem raise_doesNoDamage_alarmed :
    let sign : Request Ed25519SigningKey UsageLimits Alarm :=
      .sign Agent.watchedRecord.publicKey [] []
    let first : Moment (List Alarm) := ⟨1, []⟩
    let second : Moment (List Alarm) := ⟨2, []⟩
    (alarmed.serve first sign).1.answer = none ∧
      (alarmed.serve first sign).1.deliveries.map (fun d ↦ (d.listener.number, d.raised)) =
        [(1, false), (2, false), (1, true)] ∧
      (alarmed.serve first sign).1.memory = [⟨1⟩, ⟨2⟩, ⟨1⟩] ∧
      (alarmed.serve first sign).2.poisoned = true ∧
      ((alarmed.serve first sign).2.run [(second, sign)]).2.map (·.answer) =
        [some (.signature (.error .limitReached))] := by
  intro sign first second
  have hevent : alarmed.recover.keyring.event? first.clock sign =
      some (.used Agent.hashAndSign) := rfl
  have hlisteners : alarmed.recover.listeners =
      [⟨1⟩, ⟨2⟩] ++ (⟨1⟩ : Alarm) :: [⟨3⟩] := rfl
  obtain ⟨-, -, hserve, hguarded, hlater⟩ :=
    raise_doesNoDamage alarmed hevent hlisteners rfl rfl
  refine ⟨?_, ?_, ?_, ?_, ?_⟩
  · rw [hserve]
  · rw [hserve]
    rfl
  · rw [hserve]
    rfl
  · rw [hguarded]
  · rw [(hlater [(second, sign)]).1]
    rfl

end GuardedAgent

end SecureShell

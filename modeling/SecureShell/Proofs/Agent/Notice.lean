import SecureShell.Proofs.Agent.Answer
import SecureShell.Proofs.Agent.Run

/-!
# Who is told of what in a run

Listeners are told of every request that was successful, and of no other. What they are to be told
is said here by going through the requests of a run and their answers (`trace`): a request that was
successful is a change (`Request.change?`), and of a change every registration is told that there is
at that moment, in the order of registration. Registrations come and go by requests alone
(`registrations`), and a listener may be registered several times.

As long as no listener raises, this is what a run delivers (`Agent.run_notifies`). One that raises
keeps those after it from being told, and takes away the answer, so there would be no telling
success from failure.
-/

namespace SecureShell

variable {κ π ι μ : Type}

/-! ### What there is to tell -/

/-- The change that a request is if this is its answer. A request that was refused or that failed
is none, and registrations are not told of either. -/
def Request.change? : Request κ π ι → Answer → Option AgentEvent
  | .add _, .accepted true => some .added
  | .delete _ _, .accepted true => some .deleted
  | .deleteAll, .done => some .deletedAll
  | .lock _, .accepted true => some .locked
  | .unlock _, .accepted true => some .unlocked
  | .sign _ _ _, .signature (.ok _) => some (.used Agent.hashAndSign)
  | _, _ => none

/-- What a request makes of the registrations. -/
def Request.enroll [DecidableEq ι] (ls : List ι) : Request κ π ι → List ι
  | .listen l => ls ++ [l]
  | .unlisten l => ls.erase l
  | _ => ls

/-- The registrations after a run that starts without any. -/
def registrations [DecidableEq ι] (history : List (Moment μ × Request κ π ι)) : List ι :=
  history.foldl (fun ls q ↦ q.2.enroll ls) []

/-- The answer says of what there is to tell. -/
theorem Agent.change?_answerTo [SigningKey κ] [Policy π] [DecidableEq ι] (a : Agent κ π ι) (now : ℕ)
    (q : Request κ π ι) : q.change? (a.answerTo now q) = a.keyring.event? now q := by
  cases q with
  | sign k path data =>
    rw [answerTo, Keyring.event?]
    rcases a.keyring.signed now k data with e | sig
    · rfl
    · rfl
  | deleteAll => rfl
  | listen l => rfl
  | unlisten l => rfl
  | _ =>
    rw [answerTo, Keyring.event?]
    split
    · rename_i h
      rw [decide_eq_true h]
      rfl
    · rename_i h
      rw [decide_eq_false h]
      rfl

variable [Listener ι κ π μ]

/-- Listeners that do not raise are all told. -/
theorem notify_of_quiet {event : AgentEvent} {s : Keyring κ π} {m : μ} {ls : List ι}
    (h : ∀ d ∈ (notify event s m ls).deliveries, d.raised = false) :
    (notify event s m ls).deliveries = ls.map (fun l ↦ ⟨l, event, s, false⟩) ∧
      (notify event s m ls).raised = false := by
  induction ls generalizing m with
  | nil => exact ⟨rfl, rfl⟩
  | cons l ls ih =>
    rcases htell : (Listener.tell l event s m).1 with - | -
    · rw [notify_cons_of_calm htell] at h ⊢
      obtain ⟨hdeliveries, hraised⟩ := ih fun d hd ↦ h d (List.mem_cons_of_mem _ hd)
      exact ⟨congrArg (_ :: ·) hdeliveries, hraised⟩
    · rw [notify_cons_of_raise htell] at h
      cases h _ List.mem_cons_self

/-- Listeners that never raise. -/
def Listener.Calm (ι κ π μ : Type) [Listener ι κ π μ] : Prop :=
  ∀ (l : ι) (event : AgentEvent) (s : Keyring κ π) (m : μ), (tell l event s m).1 = false

/-- Listeners that never raise do not raise when they are told. -/
theorem Listener.Calm.quiet_notify (h : Listener.Calm ι κ π μ) (event : AgentEvent)
    (s : Keyring κ π) (m : μ) (ls : List ι) :
    ∀ d ∈ (notify event s m ls).deliveries, d.raised = false := by
  induction ls generalizing m with
  | nil => exact fun d hd ↦ nomatch hd
  | cons l ls ih =>
    rw [notify_cons_of_calm (h l event s m)]
    exact List.forall_mem_cons.2 ⟨rfl, ih _⟩

namespace Agent

theorem raises_of_calm (h : Listener.Calm ι κ π μ) (a : Agent κ π ι) (m : μ)
    (event : AgentEvent) : a.raises m event = false :=
  (notify_of_quiet (h.quiet_notify event a.keyring m a.listeners)).2

variable [SigningKey κ] [Policy π] [DecidableEq ι] {a : Agent κ π ι} {now : Moment μ}
  {q : Request κ π ι}

/-! ### One request -/

/-- The registrations after a request. -/
theorem listeners_serve (a : Agent κ π ι) (now : Moment μ) (q : Request κ π ι) :
    (a.serve now q).agent.listeners = q.enroll a.listeners := by
  rw [agent_serve]
  cases q <;> rfl

/-- **What comes of a request if no listener raises**: an answer, and one callback to every
registration if the answer says that there is something to tell. -/
theorem answer_and_deliveries_of_quiet
    (hquiet : ∀ d ∈ (a.serve now q).deliveries, d.raised = false) :
    (a.serve now q).answer = some (a.answerTo now.clock q) ∧
      (a.serve now q).deliveries = match (a.serve now q).answer.bind q.change? with
        | none => []
        | some event =>
          a.listeners.map fun l ↦ ⟨l, event, (a.serve now q).agent.keyring, false⟩ := by
  rcases serve_cases a now q with h | ⟨event, h⟩
  · rw [h.answer, h.deliveries, Option.bind_some, change?_answerTo, h.unchanged]
    exact ⟨rfl, rfl⟩
  · rw [h.deliveries] at hquiet
    obtain ⟨htold, hraised⟩ := notify_of_quiet hquiet
    have hanswer : (a.serve now q).answer = some (a.answerTo now.clock q) := by
      rw [h.answer, raises, h.listeners, hraised]
      rfl
    rw [hanswer, h.deliveries, htold, Option.bind_some, change?_answerTo, h.changed]
    exact ⟨rfl, rfl⟩

/-! ### Runs -/

/-- No listener raises in a run. -/
def Quiet (a : Agent κ π ι) (rs : List (Moment μ × Request κ π ι)) : Prop :=
  ∀ o ∈ (a.run rs).2, ∀ d ∈ o.deliveries, d.raised = false

/-- Listeners that never raise do not raise in a run. -/
theorem quiet_of_calm (h : Listener.Calm ι κ π μ) (a : Agent κ π ι)
    (rs : List (Moment μ × Request κ π ι)) : a.Quiet rs := by
  induction rs generalizing a with
  | nil => exact fun o ho ↦ nomatch ho
  | cons q rs ih =>
    refine List.forall_mem_cons.2 ⟨?_, ih _⟩
    rcases serve_cases a q.1 q.2 with hsettles | ⟨event, hannounces⟩
    · rw [hsettles.deliveries]
      exact fun d hd ↦ nomatch hd
    · rw [hannounces.deliveries]
      exact h.quiet_notify _ _ _ _

/-- All calls of listeners in a run, in order. -/
def deliveriesOf (a : Agent κ π ι) (rs : List (Moment μ × Request κ π ι)) : List (Delivery ι κ π) :=
  (a.run rs).2.flatMap (·.deliveries)

/-- The callbacks that are due for a request that comes after a run: if it is successful, one to
each registration in order, with the keyring as the request leaves it. -/
def callbacks (before : List (Moment μ × Request κ π ι)) (q : Moment μ × Request κ π ι) :
    List (Delivery ι κ π) :=
  match ((ofRun before).serve q.1 q.2).answer.bind q.2.change? with
  | none => []
  | some event =>
    (registrations before).map fun l ↦ ⟨l, event, (ofRun (before ++ [q])).keyring, false⟩

/-- The callbacks that are due for the requests that come after a run, in their order. -/
def trace (before : List (Moment μ × Request κ π ι)) :
    List (Moment μ × Request κ π ι) → List (Delivery ι κ π)
  | [] => []
  | q :: rest => callbacks before q ++ trace (before ++ [q]) rest

/-- The registrations after a run can be told from the requests. -/
theorem listeners_ofRun (history : List (Moment μ × Request κ π ι)) :
    (ofRun history).listeners = registrations history := by
  induction history using List.reverseRecOn with
  | nil => rfl
  | append_singleton history q ih =>
    rw [ofRun_append, registrations, List.foldl_append, ← registrations, ← ih]
    exact listeners_serve _ _ _

theorem Quiet.head {rs : List (Moment μ × Request κ π ι)} {q : Moment μ × Request κ π ι}
    (h : a.Quiet (q :: rs)) : ∀ d ∈ (a.serve q.1 q.2).deliveries, d.raised = false :=
  h _ List.mem_cons_self

theorem Quiet.tail {rs : List (Moment μ × Request κ π ι)} {q : Moment μ × Request κ π ι}
    (h : a.Quiet (q :: rs)) : (a.serve q.1 q.2).agent.Quiet rs := fun o ho ↦
  h o (List.mem_cons_of_mem _ ho)

/-- **A run delivers what is due.** -/
theorem deliveriesOf_eq_trace (before rs : List (Moment μ × Request κ π ι))
    (hquiet : (ofRun before).Quiet rs) : (ofRun before).deliveriesOf rs = trace before rs := by
  induction rs generalizing before with
  | nil => rfl
  | cons q rs ih =>
    have hserved : ((ofRun before).serve q.1 q.2).agent = ofRun (before ++ [q]) := by
      rw [ofRun_append]
      rfl
    have hrest : (ofRun (before ++ [q])).Quiet rs := hserved ▸ hquiet.tail
    have hrun : (ofRun before).deliveriesOf (q :: rs) = ((ofRun before).serve q.1 q.2).deliveries ++
        ((ofRun before).serve q.1 q.2).agent.deliveriesOf rs := rfl
    obtain ⟨-, hdue⟩ := answer_and_deliveries_of_quiet hquiet.head
    rw [hrun, hserved, ih _ hrest, hdue, trace, callbacks, ← listeners_ofRun, hserved]

theorem Quiet.after {rs ts : List (Moment μ × Request κ π ι)} (h : a.Quiet (rs ++ ts)) :
    (a.after rs).Quiet ts := by
  induction rs generalizing a with
  | nil => exact h
  | cons q rs ih => exact ih h.tail

/-- How an agent keeps the registrations of its listeners. -/
structure KeepsRegistrations (μ : Type) [Listener ι κ π μ] (a : Agent κ π ι) (ls : List ι) :
    Prop where
  /-- These are the registrations, in their order. -/
  listeners : a.listeners = ls
  /-- A new registration comes after all others, also if the listener is registered already. -/
  listen : ∀ (now : Moment μ) l, (a.serve now (.listen l)).agent = { a with listeners := ls ++ [l] }
  /-- Of a listener that is registered the earliest registration is removed, and no other. -/
  unlisten_registered : ∀ (now : Moment μ) l, l ∈ ls →
    (a.serve now (.unlisten l)).answer = some (.accepted true) ∧
    ∃ front back, ls = front ++ l :: back ∧ l ∉ front ∧
      (a.serve now (.unlisten l)).agent = { a with listeners := front ++ back }
  /-- Of a listener that is not registered nothing is removed. -/
  unlisten_unregistered : ∀ (now : Moment μ) l, l ∉ ls →
    (a.serve now (.unlisten l)).answer = some (.accepted false) ∧
    (a.serve now (.unlisten l)).agent = a

theorem keepsRegistrations (a : Agent κ π ι) : a.KeepsRegistrations μ a.listeners where
  listeners := rfl
  listen now l := rfl
  unlisten_registered now l hl := by
    obtain ⟨front, back, hfront, hls, herase⟩ := List.exists_erase_eq hl
    refine ⟨?_, front, back, hls, hfront, ?_⟩
    · show some (Answer.accepted (a.listeners.contains l)) = _
      rw [List.contains_iff_mem.2 hl]
    · show ({ a with listeners := a.listeners.erase l } : Agent κ π ι) = _
      rw [herase]
  unlisten_unregistered now l hl := by
    refine ⟨?_, ?_⟩
    · show some (Answer.accepted (a.listeners.contains l)) = _
      rw [Bool.eq_false_iff.2 fun h ↦ hl (List.contains_iff_mem.1 h)]
    · show ({ a with listeners := a.listeners.erase l } : Agent κ π ι) = _
      rw [List.erase_of_not_mem hl]

/-- **The callbacks of a run are those that are due**, if no listener raises: for every request that
was successful, in the order of the run, one of its kind to each registration that there was, in
the order of registration, with the keyring as the request left it; and for the other requests none.
Every request gets an answer, and the answer is yes, or a signature, exactly if the keyring that
the request found says so. Registrations are kept in their order, and a listener that is to be told
no longer loses its earliest one. -/
theorem run_notifies (history : List (Moment μ × Request κ π ι))
    (hquiet : (empty : Agent κ π ι).Quiet history) :
    (empty : Agent κ π ι).deliveriesOf history = trace [] history ∧
      (∀ before q rest, history = before ++ q :: rest →
        ((ofRun before : Agent κ π ι).serve q.1 q.2).answer =
          some ((ofRun before).answerTo q.1.clock q.2)) ∧
      (ofRun history).KeepsRegistrations μ (registrations history) := by
  refine ⟨deliveriesOf_eq_trace [] history hquiet, ?_, ?_⟩
  · rintro before q rest rfl
    exact (answer_and_deliveries_of_quiet hquiet.after.head).1
  · rw [← listeners_ofRun]
    exact keepsRegistrations _

/-! ### A listener that is registered twice -/

/-- A listener that only listens. -/
structure Watcher where
  /-- Which one it is. -/
  number : ℕ
  deriving DecidableEq

instance {κ π μ : Type} : Listener Watcher κ π μ := ⟨fun _ _ _ m ↦ (false, m)⟩

theorem Watcher.calm {κ π μ : Type} : Listener.Calm Watcher κ π μ := fun _ _ _ _ ↦ rfl

/-- A key to be added. -/
def watchedRecord : KeyRecord Ed25519SigningKey UsageLimits :=
  ⟨⟨[1]⟩, ⟨List.replicate 32 1, rfl⟩, "first", ⟨some 1, none, 0, 0⟩⟩

/-- A key is added twice, used twice though it may be used once, and deleted under a wrong and the
right description; the agent is locked twice and unlocked with a wrong and the right password. The
first watcher is registered on both sides of the second, until its earlier registration is
removed. -/
def watchedRun : List (Moment Unit × Request Ed25519SigningKey UsageLimits Watcher) :=
  [(0, .listen ⟨1⟩), (0, .listen ⟨2⟩), (0, .listen ⟨1⟩), (1, .add watchedRecord),
    (2, .add watchedRecord), (3, .unlisten ⟨1⟩), (3, .unlisten ⟨3⟩),
    (4, .sign watchedRecord.publicKey [] []), (5, .sign watchedRecord.publicKey [] []),
    (6, .lock "é"), (7, .lock "e"), (8, .unlock "e"), (9, .unlock "é"), (10, .unlock ""),
    (11, .delete watchedRecord.publicKey ""), (12, .delete watchedRecord.publicKey "first"),
    (13, .deleteAll)]

/-- Refused requests are not told of, and the others to every registration that there is. -/
theorem run_notifies_watchers :
    ((empty : Agent Ed25519SigningKey UsageLimits Watcher).deliveriesOf watchedRun).map
        (fun d ↦ (d.listener.number, d.event, d.keyring.size, d.keyring.isLocked)) =
      [(1, .added, 1, false), (2, .added, 1, false), (1, .added, 1, false),
        (2, .used "hash-and-sign", 1, false), (1, .used "hash-and-sign", 1, false),
        (2, .locked, 1, true), (1, .locked, 1, true), (2, .unlocked, 1, false),
        (1, .unlocked, 1, false), (2, .deleted, 0, false), (1, .deleted, 0, false),
        (2, .deletedAll, 0, false), (1, .deletedAll, 0, false)] := by
  rw [(run_notifies watchedRun (quiet_of_calm Watcher.calm _ _)).1]
  decide +kernel

end Agent

end SecureShell

import SecureShell.Proofs.Agent.Notice

/-!
# Each key on its own

What became of a key in a run can be told from the requests alone, each with its reading of the
clock (`Agent.record?_ofRun`), and a request that does not concern the key leaves its record as it
is (`Request.act_of_not_concerns`). So requests for other keys, the lock and the listeners can be
left out of the run (`Agent.record?_ofRun_filter`).

An answer about a key depends on its record too, and on nothing else (`Agent.answerTo_congr`), as
long as no listener takes it away. What listeners remember has no part in either: it makes no
difference to the agent (`Agent.ofRun_congr`), so they may remember something else if requests are
left out.
-/

namespace SecureShell

variable {κ π ι μ : Type}

/-! ### Requests about one key -/

namespace Request

/-- Whether a request concerns a key: it is for this key, or for all of them. -/
def concerns (k : Identity) : Request κ π ι → Bool
  | .add r => r.publicKey = k
  | .delete k' _ | .sign k' _ _ => k' = k
  | .deleteAll => true
  | .lock _ | .unlock _ | .listen _ | .unlisten _ => false

/-- Whether a request is one to lock or to unlock. -/
def turnsLock : Request κ π ι → Bool
  | .lock _ | .unlock _ => true
  | _ => false

theorem act_of_not_concerns [SigningKey κ] [Policy π] {k : Identity} {q : Request κ π ι}
    (h : q.concerns k = false) (now : ℕ) (record : Option (KeyRecord κ π)) :
    q.act k now record = record := by
  cases q with
  | add r => exact if_neg (of_decide_eq_false h)
  | delete k' d => exact if_neg fun hk ↦ of_decide_eq_false h hk.1
  | deleteAll => cases h
  | sign k' path data => exact if_neg (of_decide_eq_false h)
  | _ => rfl

/-- Locking and unlocking concern no key. -/
theorem not_turnsLock_of_concerns {k : Identity} {q : Request κ π ι} (h : q.concerns k = true) :
    (!q.turnsLock) = true := by
  cases q with
  | lock password => cases h
  | unlock password => cases h
  | _ => rfl

end Request

/-- The requests of a run with their readings of the clock, whatever listeners remember. -/
def timed (history : List (Moment μ × Request κ π ι)) : List (ℕ × Request κ π ι) :=
  history.map fun q ↦ (q.1.clock, q.2)

/-- What is left of a run if all requests are left out that do not concern a key. -/
def concerning (k : Identity) (history : List (Moment μ × Request κ π ι)) :
    List (Moment μ × Request κ π ι) :=
  history.filter fun q ↦ q.2.concerns k

/-- What is left of a run if nobody locks or unlocks. -/
def withoutLocks (history : List (Moment μ × Request κ π ι)) :
    List (Moment μ × Request κ π ι) :=
  history.filter fun q ↦ !q.2.turnsLock

theorem concerning_split {k : Identity} {q : Moment μ × Request κ π ι} (hq : q.2.concerns k = true)
    (before rest : List (Moment μ × Request κ π ι)) :
    concerning k (before ++ q :: rest) = concerning k before ++ q :: concerning k rest := by
  simp only [concerning, List.filter_append, List.filter_cons, hq, if_true]

theorem withoutLocks_split {k : Identity} {q : Moment μ × Request κ π ι}
    (hq : q.2.concerns k = true) (before rest : List (Moment μ × Request κ π ι)) :
    withoutLocks (before ++ q :: rest) = withoutLocks before ++ q :: withoutLocks rest := by
  simp only [withoutLocks, List.filter_append, List.filter_cons,
    Request.not_turnsLock_of_concerns hq, if_true]

/-- Listeners come and go by requests that concern no key. -/
theorem registrations_concerning [DecidableEq ι] (k : Identity)
    (history : List (Moment μ × Request κ π ι)) : registrations (concerning k history) = [] := by
  refine List.foldlRecOn (motive := fun ls ↦ ls = []) _ _ rfl ?_
  rintro ls rfl ⟨t, q⟩ hq
  have hconcerns : q.concerns k = true := (List.mem_filter.1 hq).2
  cases q with
  | listen l => cases hconcerns
  | unlisten l => rfl
  | _ => rfl

variable [SigningKey κ] [Policy π]

/-! ### Answers -/

namespace Agent

variable [DecidableEq ι]

/-- **The answer to a request about a key depends on the record of this key.** -/
theorem answerTo_congr {a b : Agent κ π ι} {k : Identity} {q : Request κ π ι}
    (hq : q.concerns k = true) (h : a.keyring.record? k = b.keyring.record? k) (now : ℕ) :
    a.answerTo now q = b.answerTo now q := by
  have hkeys : k ∈ a.keyring.keys ↔ k ∈ b.keyring.keys := by
    rw [← not_iff_not, ← Keyring.record?_eq_none_iff, ← Keyring.record?_eq_none_iff, h]
  cases q with
  | add r =>
    obtain rfl : r.publicKey = k := of_decide_eq_true hq
    simp only [answerTo, hkeys]
  | delete k' d =>
    obtain rfl : k' = k := of_decide_eq_true hq
    have hdescription : a.keyring.description? k' = b.keyring.description? k' :=
      congrArg (Option.map _) h
    simp only [answerTo, hdescription]
  | deleteAll => rfl
  | sign k' path data =>
    obtain rfl : k' = k := of_decide_eq_true hq
    simp only [answerTo, Keyring.signed, Keyring.granted, h, hkeys]
  | _ => cases hq

variable [Listener ι κ π μ]

/-- Without listeners every request has its answer. -/
theorem answer_of_listeners_eq_nil {a : Agent κ π ι} (h : a.listeners = []) (now : Moment μ)
    (q : Request κ π ι) : (a.serve now q).answer = some (a.answerTo now.clock q) := by
  rcases serve_cases a now q with hsettles | ⟨event, hannounces⟩
  · exact hsettles.answer
  · rw [hannounces.answer, raises, hannounces.listeners, h]
    rfl

/-! ### Runs -/

/-- An agent is made by the requests of its run and by their readings of the clock. -/
theorem ofRun_eq_foldl (history : List (Moment μ × Request κ π ι)) :
    (ofRun history : Agent κ π ι) = (timed history).foldl
      (fun a q ↦ ⟨a.keyring.after q.1 q.2, a.listenersAfter q.2⟩) empty := by
  induction history using List.reverseRecOn with
  | nil => rfl
  | append_singleton history q ih =>
    rw [timed, List.map_append, List.foldl_append, ← timed, ← ih, ofRun_append]
    exact agent_serve _ _ _

/-- **What listeners remember makes no difference to an agent.** -/
theorem ofRun_congr {history other : List (Moment μ × Request κ π ι)}
    (h : timed other = timed history) : (ofRun other : Agent κ π ι) = ofRun history := by
  rw [ofRun_eq_foldl, ofRun_eq_foldl, h]

/-- **The record of a key after a run** is what all requests make of it, one after the other. -/
theorem record?_ofRun (history : List (Moment μ × Request κ π ι)) (k : Identity) :
    (ofRun history : Agent κ π ι).keyring.record? k =
      history.foldl (fun record q ↦ q.2.act k q.1.clock record) none := by
  induction history using List.reverseRecOn with
  | nil => rfl
  | append_singleton history q ih =>
    rw [List.foldl_append, ← ih, ofRun_append]
    show ((ofRun history).serve q.1 q.2).agent.keyring.record? k = _
    rw [keyring_serve]
    exact Keyring.record?_after_eq (distinct_ofRun history) q.1.clock q.2

/-- **Requests that do not concern a key can be left out.** -/
theorem record?_ofRun_filter {k : Identity} {keep : Moment μ × Request κ π ι → Bool}
    (hkeep : ∀ q, q.2.concerns k = true → keep q = true)
    (history : List (Moment μ × Request κ π ι)) :
    (ofRun (history.filter keep) : Agent κ π ι).keyring.record? k =
      (ofRun history : Agent κ π ι).keyring.record? k := by
  rw [record?_ofRun, record?_ofRun, List.foldl_filter]
  refine congrFun (congrArg₂ List.foldl (funext₂ fun record q ↦ ?_) rfl) history
  split
  · rfl
  · rename_i hdrop
    refine (Request.act_of_not_concerns ?_ q.1.clock record).symm
    exact Bool.eq_false_iff.2 fun hconcerns ↦ hdrop (hkeep q hconcerns)

/-- An answer that a run without raising listeners gives. -/
theorem Quiet.answer {before rest : List (Moment μ × Request κ π ι)} {q : Moment μ × Request κ π ι}
    (h : (empty : Agent κ π ι).Quiet (before ++ q :: rest)) :
    ((ofRun before : Agent κ π ι).serve q.1 q.2).answer =
      some ((ofRun before : Agent κ π ι).answerTo q.1.clock q.2) :=
  (answer_and_deliveries_of_quiet h.after.head).1

/-- **Each key is on its own.** Take a run in which no listener raises, and leave out all that does
not concern a key: what is for other keys, the locking and unlocking, and the listeners. What is
left, each request at its reading of the clock, is answered as before, and at any moment the key has
the description and the policy that it had. So whether the agent is locked makes no difference to
any key: without the requests to lock and to unlock every request that concerns a key is answered as
before, if no listener raises then either. What listeners remember is not the same if they have been
told less, so it is left open for all that is left of the run. -/
theorem keys_isolated (history : List (Moment μ × Request κ π ι))
    (hquiet : (empty : Agent κ π ι).Quiet history) (k : Identity) :
    (∀ before q rest, history = before ++ q :: rest → q.2.concerns k = true →
      concerning k history = concerning k before ++ q :: concerning k rest ∧
      ∀ (other : List (Moment μ × Request κ π ι)) (now : Moment μ),
        timed other = timed (concerning k before) → now.clock = q.1.clock →
        ((ofRun other : Agent κ π ι).serve now q.2).answer =
          ((ofRun before : Agent κ π ι).serve q.1 q.2).answer) ∧
    (∀ before (other : List (Moment μ × Request κ π ι)), before <+: history →
      timed other = timed (concerning k before) →
      (ofRun other : Agent κ π ι).keyring.description? k =
        (ofRun before : Agent κ π ι).keyring.description? k ∧
      (ofRun other : Agent κ π ι).keyring.policy? k =
        (ofRun before : Agent κ π ι).keyring.policy? k) ∧
    ∀ before q rest, history = before ++ q :: rest → q.2.concerns k = true →
      withoutLocks history = withoutLocks before ++ q :: withoutLocks rest ∧
      ∀ (other : List (Moment μ × Request κ π ι)) (now : Moment μ),
        timed other = timed (withoutLocks before) → now.clock = q.1.clock →
        (∀ d ∈ ((ofRun other : Agent κ π ι).serve now q.2).deliveries, d.raised = false) →
        ((ofRun other : Agent κ π ι).serve now q.2).answer =
          ((ofRun before : Agent κ π ι).serve q.1 q.2).answer := by
  have hrecord : ∀ before : List (Moment μ × Request κ π ι),
      (ofRun (concerning k before) : Agent κ π ι).keyring.record? k =
        (ofRun before : Agent κ π ι).keyring.record? k :=
    record?_ofRun_filter fun _ hconcerns ↦ hconcerns
  refine ⟨?_, fun before other _ hother ↦ ?_, ?_⟩
  · rintro before q rest rfl hq
    have hnobody : (ofRun (concerning k before) : Agent κ π ι).listeners = [] := by
      rw [listeners_ofRun, registrations_concerning]
    refine ⟨concerning_split hq before rest, fun other now hother hclock ↦ ?_⟩
    rw [ofRun_congr hother, hquiet.answer, answer_of_listeners_eq_nil hnobody,
      answerTo_congr hq (hrecord before), hclock]
  · rw [ofRun_congr hother]
    exact ⟨congrArg (Option.map _) (hrecord before), congrArg (Option.map _) (hrecord before)⟩
  · rintro before q rest rfl hq
    have hunlocked : (ofRun (withoutLocks before) : Agent κ π ι).keyring.record? k =
        (ofRun before : Agent κ π ι).keyring.record? k :=
      record?_ofRun_filter (fun _ h ↦ Request.not_turnsLock_of_concerns h) before
    refine ⟨withoutLocks_split hq before rest, fun other now hother hclock hcalm ↦ ?_⟩
    rw [(answer_and_deliveries_of_quiet hcalm).1, ofRun_congr hother, hquiet.answer,
      answerTo_congr hq hunlocked, hclock]

/-- A run in which another key is added, used and deleted, the agent is locked in between, and the
key that may be used once is used twice. -/
def sharedRun : List (Moment Unit × Request Ed25519SigningKey UsageLimits Watcher) :=
  let other : KeyRecord Ed25519SigningKey UsageLimits := { watchedRecord with publicKey := ⟨[2]⟩ }
  [(0, .listen ⟨1⟩), (1, .add other), (2, .add watchedRecord), (3, .sign other.publicKey [] []),
    (4, .lock "x"), (5, .sign watchedRecord.publicKey [] []), (6, .delete other.publicKey "first"),
    (7, .sign watchedRecord.publicKey [] [])]

/-- The second use is refused as if there were neither another key nor a lock. -/
theorem keys_isolated_once :
    let sign : Request Ed25519SigningKey UsageLimits Watcher := .sign watchedRecord.publicKey [] []
    ((ofRun [((2 : Moment Unit), .add watchedRecord), (5, sign)]).serve (7 : Moment Unit)
        sign).answer = ((ofRun (sharedRun.take 7)).serve (7 : Moment Unit) sign).answer ∧
      ((ofRun (sharedRun.take 7)).serve (7 : Moment Unit) sign).answer =
        some (.signature (.error .limitReached)) := by
  intro sign
  obtain ⟨hanswers, -, -⟩ :=
    keys_isolated sharedRun (quiet_of_calm Watcher.calm _ _) watchedRecord.publicKey
  obtain ⟨-, hleft⟩ := hanswers (sharedRun.take 7) (7, sign) [] rfl (by decide)
  have hanswer := hleft [(2, .add watchedRecord), (5, sign)] 7 rfl rfl
  exact ⟨hanswer, hanswer.symm.trans rfl⟩

end Agent

end SecureShell

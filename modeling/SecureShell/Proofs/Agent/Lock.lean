import SecureShell.Proofs.Agent.Answer
import SecureShell.Proofs.Agent.Run

/-!
# Locking over whole runs

A locked agent is opened with the bytes that it was locked with, and with nothing else. What a
request makes of the lock depends on the lock alone (`Keyring.custody_after`): neither keys nor
listeners have a part in it, nor has the clock. So an agent that was locked stays locked until the
password comes (`Agent.custody_after_of_closed`), and an agent that is locked was locked by some
request whose password has not come since (`Agent.exists_lockedSince`). Both together say when an
agent is locked, and with which password (`Agent.lock_keepsCustody`).
-/

namespace SecureShell

variable {κ π ι μ : Type}

/-! ### One request -/

/-- What a request makes of a lock: the bytes that it is closed with, or none if it is open. -/
def Request.turn (c : Option Bytes) : Request κ π ι → Option Bytes
  | .lock password => some (c.getD (utf8 password))
  | .unlock password => if c = some (utf8 password) then none else c
  | _ => c

/-- What closes an open lock is a request to lock. -/
theorem Request.eq_lock_of_turn {c : Option Bytes} {b : Bytes} {q : Request κ π ι}
    (hc : c ≠ some b) (h : q.turn c = some b) : ∃ password, q = .lock password ∧ c = none ∧
      utf8 password = b := by
  cases q with
  | lock password =>
    rcases c with - | b'
    · exact ⟨password, rfl, rfl, Option.some.inj h⟩
    · exact absurd h hc
  | unlock password =>
    rw [turn] at h
    split at h
    · cases h
    · exact absurd h hc
  | _ => exact absurd h hc

variable [SigningKey κ] [Policy π]

/-- **A request turns the lock and does nothing else to it.** -/
theorem Keyring.custody_after (s : Keyring κ π) (now : ℕ) (q : Request κ π ι) :
    (s.after now q).custody = q.turn s.custody := by
  cases q with
  | add r =>
    rw [after, insert]
    split <;> rfl
  | delete k d =>
    rw [after, remove]
    split <;> rfl
  | deleteAll => rfl
  | lock password =>
    rw [after, lock_eq, Request.turn]
    rcases h : s.custody with - | b
    · rfl
    · exact h
  | unlock password =>
    rw [after, unlock_eq, Request.turn]
    split <;> rfl
  | sign k path data =>
    rw [after, call]
    split <;> rfl
  | listen l => rfl
  | unlisten l => rfl

namespace Agent

variable [DecidableEq ι] [Listener ι κ π μ] {a : Agent κ π ι}

/-- An agent with another password, or with none. -/
def withPassword (a : Agent κ π ι) (password : Option Secret) : Agent κ π ι :=
  { a with keyring := { a.keyring with password := password } }

/-- How an agent that is not locked deals with passwords. A listener that raises takes away an
answer, and nothing else. -/
structure Unlocked (μ : Type) [Listener ι κ π μ] (a : Agent κ π ι) : Prop where
  /-- It is not locked. -/
  isLocked : a.keyring.isLocked = false
  /-- It can be locked with any password. -/
  lock : ∀ (now : Moment μ) password,
    (a.serve now (.lock password)).agent = a.withPassword (some (Secret.ofText password)) ∧
    (a.serve now (.lock password)).answer =
      if (a.withPassword (some (Secret.ofText password))).raises now.memory .locked then none
      else some (.accepted true)
  /-- There is nothing to unlock, not even with the empty password. -/
  unlock : ∀ (now : Moment μ) password,
    (a.serve now (.unlock password)).agent = a ∧
    (a.serve now (.unlock password)).answer = some (.accepted false)

/-- How an agent that is locked with a password deals with passwords. -/
structure LockedWith (μ : Type) [Listener ι κ π μ] (a : Agent κ π ι) (password : String) :
    Prop where
  /-- It keeps the password. -/
  kept : a.keyring.password = some (Secret.ofText password)
  /-- It cannot be locked again. -/
  lock : ∀ (now : Moment μ) other,
    (a.serve now (.lock other)).agent = a ∧
    (a.serve now (.lock other)).answer = some (.accepted false)
  /-- It cannot be unlocked with other bytes. -/
  unlock_other : ∀ (now : Moment μ) other, utf8 other ≠ utf8 password →
    (a.serve now (.unlock other)).agent = a ∧
    (a.serve now (.unlock other)).answer = some (.accepted false)
  /-- It can be unlocked with the password. -/
  unlock : ∀ now : Moment μ,
    (a.serve now (.unlock password)).agent = a.withPassword none ∧
    (a.serve now (.unlock password)).answer =
      if (a.withPassword none).raises now.memory .unlocked then none else some (.accepted true)

/-- What does not fit does not open the lock. -/
theorem serve_unlock_of_ne {password : String}
    (hother : a.keyring.custody ≠ some (utf8 password)) (now : Moment μ) :
    (a.serve now (.unlock password)).agent = a ∧
    (a.serve now (.unlock password)).answer = some (.accepted false) := by
  have hanswer := (settles_of_event?_eq_none now (.unlock password) (if_neg hother)).answer
  rw [answerTo, decide_eq_false hother] at hanswer
  refine ⟨?_, hanswer⟩
  rw [agent_serve, Keyring.after, Keyring.unlock_eq, if_neg hother]
  rfl

theorem unlocked (hopen : a.keyring.custody = none) : a.Unlocked μ where
  isLocked := by
    rw [Keyring.isLocked, Option.map_eq_none_iff.1 hopen]
    rfl
  lock now password := by
    have hagent : (a.serve now (.lock password)).agent =
        a.withPassword (some (Secret.ofText password)) := by
      rw [agent_serve, Keyring.after, Keyring.lock_eq, if_pos hopen]
      rfl
    have hanswer := (announces_of_event?_eq_some now (.lock password) (if_pos hopen)).answer
    rw [hagent, answerTo, decide_eq_true hopen] at hanswer
    exact ⟨hagent, hanswer⟩
  unlock now password :=
    serve_unlock_of_ne (fun h ↦ Option.some_ne_none _ (h.symm.trans hopen)) now

theorem lockedWith {password : String}
    (hclosed : a.keyring.custody = some (utf8 password)) : a.LockedWith μ password where
  kept := by
    obtain ⟨secret, hsecret, hbytes⟩ := Option.map_eq_some_iff.1 hclosed
    rw [hsecret, Secret.ofText, ← hbytes]
  lock now other := by
    have hopen : a.keyring.custody ≠ none := hclosed ▸ Option.some_ne_none _
    have hanswer := (settles_of_event?_eq_none now (.lock other) (if_neg hopen)).answer
    rw [answerTo, decide_eq_false hopen] at hanswer
    refine ⟨?_, hanswer⟩
    rw [agent_serve, Keyring.after, Keyring.lock_eq, if_neg hopen]
    rfl
  unlock_other now other hne := by
    refine serve_unlock_of_ne (fun h ↦ hne ?_) now
    rw [hclosed] at h
    exact (Option.some.inj h).symm
  unlock now := by
    have hagent : (a.serve now (.unlock password)).agent = a.withPassword none := by
      rw [agent_serve, Keyring.after, Keyring.unlock_eq, if_pos hclosed]
      rfl
    have hanswer := (announces_of_event?_eq_some now (.unlock password) (if_pos hclosed)).answer
    rw [hagent, answerTo, decide_eq_true hclosed] at hanswer
    exact ⟨hagent, hanswer⟩

/-! ### Runs -/

/-- **A closed lock stays closed** until the password comes. -/
theorem custody_after_of_closed {b : Bytes} (h : a.keyring.custody = some b)
    {rs : List (Moment μ × Request κ π ι)}
    (hrs : ∀ t other, (t, .unlock other) ∈ rs → utf8 other ≠ b) :
    (a.after rs).keyring.custody = some b := by
  induction rs generalizing a with
  | nil => exact h
  | cons q rs ih =>
    refine ih (a := (a.serve q.1 q.2).agent) ?_ fun t other hmem ↦
      hrs t other (List.mem_cons_of_mem _ hmem)
    rw [keyring_serve, Keyring.custody_after, h]
    obtain ⟨t, q⟩ := q
    cases q with
    | unlock other =>
      exact if_neg fun he ↦ hrs t other List.mem_cons_self (Option.some.inj he).symm
    | _ => rfl

/-- A run taken apart at a request that locked the agent: the request was not refused, and the
password has not come since. -/
structure LockedSince (before : List (Moment μ × Request κ π ι)) (t : Moment μ) (password : String)
    (between : List (Moment μ × Request κ π ι)) : Prop where
  /-- The request was not refused. So the answer was yes, or there was none since a listener
  raised. -/
  accepted : ((ofRun before).serve t (.lock password)).answer ≠ some (.accepted false)
  /-- Only other passwords have come since. -/
  closed : ∀ t' other, (t', .unlock other) ∈ between → utf8 other ≠ utf8 password

variable {before between : List (Moment μ × Request κ π ι)} {t : Moment μ} {password : String}

/-- What was locked and not unlocked is locked. -/
theorem LockedSince.custody (h : LockedSince before t password between) :
    (ofRun (before ++ (t, .lock password) :: between)).keyring.custody = some (utf8 password) := by
  have hopen : (ofRun before).keyring.custody = none := by
    by_contra hclosed
    have hanswer := (settles_of_event?_eq_none t (.lock password) (if_neg hclosed)).answer
    rw [answerTo, decide_eq_false hclosed] at hanswer
    exact h.accepted hanswer
  rw [List.append_cons, ofRun_append]
  refine custody_after_of_closed ?_ h.closed
  rw [ofRun_append]
  show ((ofRun before).serve t (.lock password)).agent.keyring.custody = _
  rw [keyring_serve, Keyring.custody_after, hopen]
  rfl

/-- **Whoever is locked was locked by a request**, and the password has not come since. -/
theorem exists_lockedSince {history : List (Moment μ × Request κ π ι)}
    (h : (ofRun history).keyring.custody = some (utf8 password)) :
    ∃ before t between, history = before ++ (t, .lock password) :: between ∧
      LockedSince before t password between := by
  -- From the end of the run, since the latest request that locked the agent is the one that counts.
  induction history using List.reverseRecOn with
  | nil => cases h
  | append_singleton history q ih =>
    have hturn : q.2.turn (ofRun history).keyring.custody = some (utf8 password) := by
      rw [← Keyring.custody_after _ q.1.clock, ← keyring_serve, ← h, ofRun_append]
      rfl
    by_cases hbefore : (ofRun history).keyring.custody = some (utf8 password)
    · obtain ⟨before, t, between, rfl, hsince⟩ := ih hbefore
      refine ⟨before, t, between ++ [q], by simp, hsince.accepted, fun t' other hmem ↦ ?_⟩
      rcases List.mem_append.1 hmem with hmem | hmem
      · exact hsince.closed t' other hmem
      · obtain rfl := List.mem_singleton.1 hmem
        rintro he
        rw [Request.turn, hbefore, if_pos (congrArg some he.symm)] at hturn
        cases hturn
    -- The last request is the one that locked the agent.
    · obtain ⟨t, q⟩ := q
      obtain ⟨password', rfl, hopen, hbytes⟩ := Request.eq_lock_of_turn hbefore hturn
      obtain rfl := utf8_inj.1 hbytes
      refine ⟨history, t, [], rfl, fun hrefused ↦ ?_, nofun⟩
      have hanswer := ((unlocked (μ := μ) hopen).lock t password').2
      rw [hrefused] at hanswer
      split at hanswer <;> cases hanswer

/-- **Custody of the lock.** After every run that starts without keys: an agent that is not locked
refuses every request to unlock it, and can be locked with any password; it is locked with a
password exactly if a request to lock it with this password was not refused and the password has
not come since, whatever else was asked for; and then it refuses to be locked again and to be
unlocked with other bytes, keeping the password, until the password comes and unlocks it. That
bytes are the same is what the comparison of a secret says, for secrets of every length. -/
theorem lock_keepsCustody (history : List (Moment μ × Request κ π ι)) :
    let a : Agent κ π ι := ofRun history
    (a.keyring.isLocked = false → a.Unlocked μ) ∧
      (∀ password, a.LockedWith μ password ↔
        ∃ before t between, history = before ++ (t, .lock password) :: between ∧
          LockedSince before t password between) ∧
      ∀ (s : Secret) (x : Bytes), s.agrees x = true ↔ s.bytes = x := by
  intro a
  refine ⟨fun hopen ↦ unlocked ?_, fun password ↦ ⟨fun h ↦ exists_lockedSince ?_, ?_⟩,
    fun _ _ ↦ Secret.agrees_iff⟩
  · rw [Keyring.custody, Option.map_eq_none_iff]
    simpa [Keyring.isLocked] using hopen
  · show a.keyring.custody = _
    rw [Keyring.custody, h.kept]
    rfl
  · rintro ⟨before, t, between, rfl, hsince⟩
    exact lockedWith hsince.custody

end Agent

end SecureShell

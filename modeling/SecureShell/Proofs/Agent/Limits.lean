import SecureShell.Proofs.Agent.Run

/-!
# Limits over whole runs

A key with limits on its use is refused as soon as one of them is reached, and never before. The
number of uses is recorded in the policy of its record, which a run can only change by calling the
private key; so the count after a run is the count at the beginning and the number of calls since
(`Agent.Added.record?`). With a maximum the count stays below it (`Agent.length_signedUnder_le`),
which is also why it never overflows.

A keyring may hold keys with other policies next to those with limits. Which policies these are
makes no difference, so they are left open: a policy is one of limits or one of some other type.
-/

namespace SecureShell

/-! ### Limits -/

namespace UsageLimits

/-- Limits allow a use before the lifetime is over and as long as there are uses left. -/
theorem admits_iff (l : UsageLimits) (now : ℕ) :
    Policy.admits l now = true ↔ (∀ d, l.lifetime = some d → now - l.created < d) ∧
      ∀ m, l.maxUses = some m → l.uses.toNat < m.toNat := by
  have huses : Policy.canUse l = true ↔ ∀ m, l.maxUses = some m → l.uses.toNat < m.toNat := by
    rcases h : l.maxUses with - | m
    · simp [Policy.canUse, h]
    · simp [Policy.canUse, h, UInt64.lt_iff_toNat_lt]
  have htime : Policy.hasTimedOut l now = false ↔
      ∀ d, l.lifetime = some d → now - l.created < d := by
    rcases h : l.lifetime with - | d
    · simp [Policy.hasTimedOut, h]
    · simp [Policy.hasTimedOut, h]
  rw [Policy.admits, Bool.and_eq_true, Bool.not_eq_true', huses, htime, and_comm]

/-- Uses change the count only. -/
theorem consume_iterate (l : UsageLimits) (n : ℕ) :
    Policy.consume^[n] l = { l with uses := l.uses + UInt64.ofNat n } := by
  induction n generalizing l with
  | zero => simp
  | succ n ih =>
    have hstep : (Policy.consume l).uses = l.uses + 1 := rfl
    rw [Function.iterate_succ_apply, ih, hstep, UInt64.add_assoc, UInt64.add_comm 1]
    have hsucc : UInt64.ofNat n + 1 = UInt64.ofNat (n + 1) := by simp
    rw [hsucc]
    rfl

/-- The count is exact until it would overflow. -/
theorem toNat_uses_iterate {l : UsageLimits} {n : ℕ}
    (h : l.uses.toNat + n ≤ 0xffffffffffffffff) :
    (Policy.consume^[n] l).uses.toNat = l.uses.toNat + n := by
  rw [consume_iterate]
  show (l.uses + UInt64.ofNat n).toNat = _
  rw [UInt64.toNat_add, UInt64.toNat_ofNat']
  omega

theorem toNat_uses_consume {l : UsageLimits} (h : l.uses.toNat < 0xffffffffffffffff) :
    (Policy.consume l).uses.toNat = l.uses.toNat + 1 :=
  toNat_uses_iterate (n := 1) h

section Maximum

variable {l : UsageLimits} {m : UInt64} {n : ℕ}

/-- **Uses within a maximum cannot overflow the count**, since the maximum has no more digits. -/
theorem toNat_uses_of_le (hn : n ≤ m.toNat - l.uses.toNat) :
    (Policy.consume^[n] l).uses.toNat = l.uses.toNat + n := by
  refine toNat_uses_iterate ?_
  have hm := m.toNat_lt
  have hl := l.uses.toNat_lt
  omega

/-- The uses that are left are those that there were without those that have been. -/
theorem remainingUses_of_le (hm : l.maxUses = some m) (hn : n ≤ m.toNat - l.uses.toNat) :
    ∃ left, (Policy.consume^[n] l).remainingUses = some left ∧
      left.toNat = m.toNat - l.uses.toNat - n := by
  have huses := toNat_uses_of_le hn
  have hmax : (Policy.consume^[n] l).maxUses = some m := by
    rw [consume_iterate]
    exact hm
  rw [remainingUses, hmax]
  refine ⟨_, rfl, ?_⟩
  show (if (Policy.consume^[n] l).uses < m then m - (Policy.consume^[n] l).uses else 0).toNat = _
  split
  · rename_i h
    rw [UInt64.toNat_sub_of_le _ _ (UInt64.le_of_lt h), huses]
    omega
  · rename_i h
    rw [UInt64.lt_iff_toNat_lt, huses] at h
    rw [UInt64.toNat_zero]
    omega

end Maximum

/-- What limits allow after some uses, in terms of the limits at the beginning. -/
theorem admits_iterate_iff {l : UsageLimits} {n : ℕ}
    (hn : ∀ m, l.maxUses = some m → n ≤ m.toNat - l.uses.toNat) (now : ℕ) :
    Policy.admits (Policy.consume^[n] l) now = true ↔
      (∀ d, l.lifetime = some d → now - l.created < d) ∧
        ∀ m, l.maxUses = some m → l.uses.toNat + n < m.toNat := by
  rw [admits_iff]
  have hmax : (Policy.consume^[n] l).maxUses = l.maxUses := by rw [consume_iterate]
  have hlifetime : (Policy.consume^[n] l).lifetime = l.lifetime := by rw [consume_iterate]
  have hcreated : (Policy.consume^[n] l).created = l.created := by rw [consume_iterate]
  rw [hmax, hlifetime, hcreated]
  refine and_congr_right fun _ ↦ forall₂_congr fun m hm ↦ ?_
  rw [toNat_uses_of_le (hn m hm)]

end UsageLimits

/-- Policies of one type or another. -/
instance {π ρ : Type} [Policy π] [Policy ρ] : Policy (π ⊕ ρ) where
  canUse p := p.elim Policy.canUse Policy.canUse
  hasTimedOut p now := p.elim (Policy.hasTimedOut · now) (Policy.hasTimedOut · now)
  consume p := p.map Policy.consume Policy.consume

theorem Policy.consume_iterate_inl {π ρ : Type} [Policy π] [Policy ρ] (p : π) (n : ℕ) :
    consume^[n] (.inl p : π ⊕ ρ) = .inl (consume^[n] p) := by
  induction n generalizing p with
  | zero => rfl
  | succ n ih => exact ih (consume p)

/-! ### What comes of a request -/

variable {κ π ι μ : Type} [SigningKey κ] [Policy π]

namespace Agent

/-- A request for a signature that the limits do not allow: it is refused, and nothing else comes
of it. -/
structure Refused (a : Agent κ (UsageLimits ⊕ π) ι)
    (o : Outcome κ (UsageLimits ⊕ π) ι μ Answer) : Prop where
  /-- The answer is that a limit is reached. -/
  answer : o.answer = some (.signature (.error .limitReached))
  /-- No private key is called. -/
  calls : o.calls = []
  /-- No listener is told. -/
  deliveries : o.deliveries = []
  /-- Nothing changes. -/
  agent : o.agent = a

/-- A request for a signature that the limits allow, whatever comes of it. -/
structure Admitted (a : Agent κ (UsageLimits ⊕ π) ι) (k : Identity) (data : Bytes)
    (o : Outcome κ (UsageLimits ⊕ π) ι μ Answer) : Prop where
  /-- The private key that is stored is called, once. -/
  calls : ∃ r, a.keyring.record? k = some r ∧ o.calls = [⟨k, r.privateKey, data⟩]
  /-- The record of the key has the trace of the call. All others are as they were. -/
  records : o.agent.keyring.records =
    a.keyring.records.map fun q ↦ if q.publicKey = k then q.called data else q

/-- An admitted request consumes one use. -/
theorem policy?_of_admitted {a : Agent κ (UsageLimits ⊕ π) ι} {k : Identity}
    {r : KeyRecord κ (UsageLimits ⊕ π)} {l : UsageLimits} (hd : a.keyring.Distinct)
    (hr : a.keyring.record? k = some r) (hl : r.policy = .inl l)
    {o : Outcome κ (UsageLimits ⊕ π) ι μ Answer} {data : Bytes}
    (h : Admitted a k data o) : o.agent.keyring.policy? k = some (.inl (Policy.consume l)) := by
  obtain ⟨hmem, hk⟩ := (Keyring.record?_eq_some_iff hd).1 hr
  have hkeys : o.agent.keyring.keys = a.keyring.keys := by
    rw [Keyring.keys, h.records, List.map_map, Keyring.keys]
    refine List.map_congr_left fun q _ ↦ ?_
    show (if q.publicKey = k then q.called data else q).publicKey = q.publicKey
    split <;> rfl
  have hdistinct : o.agent.keyring.Distinct := by
    rw [Keyring.Distinct, hkeys]
    exact hd
  have hcalled : o.agent.keyring.record? k = some (r.called data) := by
    refine (Keyring.record?_eq_some_iff hdistinct).2 ⟨?_, hk⟩
    rw [h.records]
    exact List.mem_map.2 ⟨r, hmem, if_pos hk⟩
  rw [Keyring.policy?, hcalled]
  show some (Policy.consume r.policy) = _
  rw [hl]
  rfl

variable [DecidableEq ι] [Listener ι κ (UsageLimits ⊕ π) μ]

variable {a : Agent κ (UsageLimits ⊕ π) ι} {k : Identity} {r : KeyRecord κ (UsageLimits ⊕ π)}
  {l : UsageLimits} {now : Moment μ}

theorem refused_serve (hr : a.keyring.record? k = some r) (hl : r.policy = .inl l)
    (h : ¬Policy.admits l now.clock = true) (path : List ForwardingHop) (data : Bytes) :
    Refused a (a.serve now (.sign k path data)) := by
  have hg : a.keyring.granted now.clock k = none := by
    rw [Keyring.granted_of_record? hr, hl]
    exact if_neg h
  have hk : k ∈ a.keyring.keys := Keyring.mem_keys.2
    ⟨r, Keyring.mem_records_of_record? hr, Keyring.publicKey_of_record? hr⟩
  obtain ⟨log, hsign⟩ := sign_of_not_granted hg path data
  rw [if_pos hk] at hsign
  have hserve : a.serve now (.sign k path data) =
      (a.settle now.memory (.error .limitReached) log).map .signature := by
    rw [← hsign]
    rfl
  rw [hserve]
  exact ⟨rfl, rfl, rfl, rfl⟩

theorem admitted_serve (hd : a.keyring.Distinct) (hr : a.keyring.record? k = some r)
    (hl : r.policy = .inl l) (h : Policy.admits l now.clock = true) (path : List ForwardingHop)
    (data : Bytes) : Admitted a k data (a.serve now (.sign k path data)) := by
  have hg : a.keyring.granted now.clock k = some r := by
    rw [Keyring.granted_of_record? hr, hl]
    exact if_pos h
  refine ⟨⟨r, hr, ?_⟩, ?_⟩
  · rw [calls_serve, Keyring.callsOf, hg]
    rfl
  · rw [keyring_serve]
    exact Keyring.records_call hd hg data

/-! ### Limits over a run -/

/-- **The private key of a key with a maximum is called as often as there are uses left**, and not
more often. -/
theorem length_signedUnder_le {a : Agent κ (UsageLimits ⊕ π) ι} {k : Identity}
    {r : KeyRecord κ (UsageLimits ⊕ π)} {l : UsageLimits} {m : UInt64}
    (hd : a.keyring.Distinct) (hr : a.keyring.record? k = some r) (hl : r.policy = .inl l)
    (hm : l.maxUses = some m) {rs : List (Moment μ × Request κ (UsageLimits ⊕ π) ι)}
    (hkeeps : a.Keeps k rs) :
    (signedUnder k (a.callsOf rs)).length ≤ m.toNat - l.uses.toNat := by
  induction rs generalizing a r l with
  | nil => exact Nat.zero_le _
  | cons q rs ih =>
    have hnext := Keyring.record?_after hd hr hkeeps.head
    have hdistinct := Keyring.distinct_after hd q.1.clock q.2
    rw [← keyring_serve] at hnext hdistinct
    rw [callsOf_cons, signedUnder_append, List.length_append]
    rcases a.keyring.signedUnder_callsOf_cases q.1.clock k q.2 with h | ⟨r', data, hg, h⟩
    · rw [h] at hnext ⊢
      have hrest := ih hdistinct hnext hl hm hkeeps.tail
      simpa using hrest
    -- The call was granted, so there was a use left, and now there is one less.
    · obtain ⟨hr', hadmits⟩ := Keyring.granted_eq_some_iff.1 hg
      obtain rfl := Option.some.inj (hr.symm.trans hr')
      rw [hl] at hadmits
      have hlt := ((UsageLimits.admits_iff l q.1.clock).1 hadmits).2 m hm
      rw [h] at hnext ⊢
      have hpolicy : (r.calledFor [data]).policy = .inl (Policy.consume l) := by
        rw [KeyRecord.policy_calledFor, hl]
        rfl
      have hrest := ih hdistinct hnext hpolicy hm hkeeps.tail
      have hbound := m.toNat_lt
      rw [UsageLimits.toNat_uses_consume (by omega)] at hrest
      simp only [List.length_singleton]
      omega

section Runs

variable {before between : List (Moment μ × Request κ (UsageLimits ⊕ π) ι)} {t : Moment μ}

/-- The policy of a key with limits counts the requests for which the key was called. -/
theorem Added.exists_record? (h : Added before t r between) (hl : r.policy = .inl l) :
    ∃ r', (ofRun (before ++ (t, .add r) :: between)).keyring.record? r.publicKey = some r' ∧
      r'.policy = .inl (Policy.consume^[(ofRun (before ++ [(t, .add r)])).requestsUnder
        r.publicKey between] l) := by
  refine ⟨_, h.record?, ?_⟩
  rw [KeyRecord.policy_calledFor, hl, Policy.consume_iterate_inl, requestsUnder_eq]

/-- There are not more of these requests than there were uses left. -/
theorem Added.requestsUnder_le (h : Added before t r between) (hl : r.policy = .inl l) {m : UInt64}
    (hm : l.maxUses = some m) :
    (ofRun (before ++ [(t, .add r)])).requestsUnder r.publicKey between ≤
      m.toNat - l.uses.toNat := by
  rw [requestsUnder_eq]
  exact length_signedUnder_le (distinct_ofRun _) h.record?_add hl hm h.kept

end Runs

/-- **Limits hold over whole runs.** Take a run that starts without keys, with a clock that does not
go back, in which a key was added with limits and has been stored ever since, and a request for a
signature that comes next. Let `n` be the number of requests since for which the private key was
called.

The request is admitted exactly if the lifetime is not over and there is a use left after the `n`;
otherwise it is refused. An admitted request adds one to the count of uses, whether there is a
signature or not; without a maximum this is so until the count overflows. With a maximum there were
not more calls than uses left at the beginning, the count and the number of uses left are exact, and
once the lifetime was over at any reading of the clock, requests are refused. -/
theorem limits_hold {before between : List (Moment μ × Request κ (UsageLimits ⊕ π) ι)}
    {t : Moment μ} (hlimits : r.policy = .inl l) (hadded : Added before t r between)
    (now : Moment μ)
    (hclock : ((before ++ (t, .add r) :: between).map (·.1.clock) ++ [now.clock]).Pairwise (· ≤ ·))
    (path : List ForwardingHop) (data : Bytes) :
    let a : Agent κ (UsageLimits ⊕ π) ι := ofRun (before ++ (t, .add r) :: between)
    let n := (ofRun (before ++ [(t, .add r)])).requestsUnder r.publicKey between
    let o := a.serve now (.sign r.publicKey path data)
    let allowed := (∀ d, l.lifetime = some d → now.clock - l.created < d) ∧
      ∀ m, l.maxUses = some m → l.uses.toNat + n < m.toNat
    ∃ l₀ : UsageLimits, a.keyring.policy? r.publicKey = some (.inl l₀) ∧
      (allowed → Admitted a r.publicKey data o) ∧ (¬allowed → Refused a o) ∧
      (allowed → ∃ l₁ : UsageLimits, o.agent.keyring.policy? r.publicKey = some (.inl l₁) ∧
        l₁ = { l₀ with uses := l₁.uses } ∧
        (l.maxUses ≠ none ∨ l₀.uses.toNat < 0xffffffffffffffff →
          l₁.uses.toNat = l₀.uses.toNat + 1)) ∧
      (∀ m, l.maxUses = some m → n ≤ m.toNat - l.uses.toNat ∧
        l₀.uses.toNat = l.uses.toNat + n ∧
        ∃ left, l₀.remainingUses = some left ∧ left.toNat = m.toNat - l.uses.toNat - n) ∧
      ∀ d, l.lifetime = some d →
        (∃ t' ∈ t :: between.map Prod.fst, d ≤ t'.clock - l.created) → Refused a o := by
  intro a n o allowed
  have hd : a.keyring.Distinct := distinct_ofRun _
  have hmax : ∀ m, l.maxUses = some m → n ≤ m.toNat - l.uses.toNat := fun m hm ↦
    hadded.requestsUnder_le hlimits hm
  obtain ⟨r', hr', hl'⟩ := hadded.exists_record? hlimits
  have hallowed : Policy.admits (Policy.consume^[n] l) now.clock = true ↔ allowed :=
    UsageLimits.admits_iterate_iff hmax now.clock
  have hadmitted : allowed → Admitted a r.publicKey data o := fun h ↦
    admitted_serve hd hr' hl' (hallowed.2 h) path data
  have hrefused : ¬allowed → Refused a o := fun h ↦
    refused_serve hr' hl' (fun hadmits ↦ h (hallowed.1 hadmits)) path data
  refine ⟨Policy.consume^[n] l, ?_, hadmitted, hrefused, fun h ↦ ?_, fun m hm ↦ ?_, ?_⟩
  · rw [Keyring.policy?, hr', Option.map_some, hl']
  -- With a maximum there is a use left, so the count is below the greatest of all counts.
  · refine ⟨_, policy?_of_admitted hd hr' hl' (hadmitted h), rfl, fun hcount ↦ ?_⟩
    refine UsageLimits.toNat_uses_consume ?_
    rcases hm : l.maxUses with - | m
    · exact hcount.resolve_left fun hne ↦ hne hm
    · have hlt := h.2 m hm
      have hbound := m.toNat_lt
      rw [UsageLimits.toNat_uses_of_le (hmax m hm)]
      omega
  · exact ⟨hmax m hm, UsageLimits.toNat_uses_of_le (hmax m hm),
      UsageLimits.remainingUses_of_le hm (hmax m hm)⟩
  -- The clock has not gone back since the reading at which the lifetime was over.
  · rintro d hd ⟨t', ht', hover⟩
    have hmem : t'.clock ∈ (before ++ (t, .add r) :: between).map (·.1.clock) := by
      rw [List.map_append, List.map_cons]
      exact List.mem_append_right _ (by simpa using List.mem_map_of_mem (f := Moment.clock) ht')
    have hle : t'.clock ≤ now.clock :=
      (List.pairwise_append.1 hclock).2.2 t'.clock hmem now.clock List.mem_cons_self
    refine hrefused fun h ↦ ?_
    have hlt := h.1 d hd
    omega

/-! ### A key for two signatures -/

instance {κ π μ : Type} : Listener Empty κ π μ := ⟨fun l ↦ nomatch l⟩

/-- A key that may be used twice within ten units of time. -/
def twiceRecord : KeyRecord Ed25519SigningKey (UsageLimits ⊕ UsageLimits) :=
  ⟨⟨[1]⟩, ⟨List.replicate 32 0, rfl⟩, "", .inl ⟨some 2, some 10, 0, 0⟩⟩

/-- A request for a signature of this key. -/
def twiceSign : Request Ed25519SigningKey (UsageLimits ⊕ UsageLimits) Empty :=
  .sign twiceRecord.publicKey [] []

/-- The key signs twice and is refused from then on, and also once the time is over. -/
theorem limits_hold_twice :
    let once := ofRun (μ := Unit) [(1, .add twiceRecord), (2, twiceSign)]
    let twice := ofRun (μ := Unit) [(1, .add twiceRecord), (2, twiceSign), (3, twiceSign)]
    Admitted once twiceRecord.publicKey [] (once.serve (3 : Moment Unit) twiceSign) ∧
      Refused once (once.serve (10 : Moment Unit) twiceSign) ∧
      Refused twice (twice.serve (4 : Moment Unit) twiceSign) := by
  intro once twice
  have hkept : ∀ p ∈ List.inits [((2 : Moment Unit), twiceSign), (3, twiceSign)],
      twiceRecord.publicKey ∈
        ((ofRun [((1 : Moment Unit), .add twiceRecord)]).after p).keyring.keys := by
    decide
  have honce : Added [] (1 : Moment Unit) twiceRecord [(2, twiceSign)] := by
    refine ⟨List.not_mem_nil, fun p hp ↦ hkept p ((List.mem_inits _ _).2 (hp.trans ?_))⟩
    exact List.prefix_append [(2, twiceSign)] [(3, twiceSign)]
  have htwice : Added [] (1 : Moment Unit) twiceRecord [(2, twiceSign), (3, twiceSign)] :=
    ⟨List.not_mem_nil, fun p hp ↦ hkept p ((List.mem_inits _ _).2 hp)⟩
  obtain ⟨-, -, hadmitted, -⟩ := limits_hold rfl honce 3 (by decide) [] []
  obtain ⟨-, -, -, hover, -⟩ := limits_hold rfl honce 10 (by decide) [] []
  obtain ⟨-, -, -, hspent, -⟩ := limits_hold rfl htwice 4 (by decide) [] []
  refine ⟨hadmitted ⟨?_, ?_⟩, hover fun h ↦ ?_, hspent fun h ↦ ?_⟩
  · rintro d ⟨⟩
    decide
  · rintro m ⟨⟩
    decide
  · exact absurd (h.1 10 rfl) (by decide)
  · exact absurd (h.2 2 rfl) (by decide)

end Agent

end SecureShell

import SecureShell.Proofs.Agent.Serve
import Mathlib.Data.List.Infix

/-!
# Runs of an agent

What holds before and after every request holds after every run. That way public keys stay distinct
(`Agent.distinct_after`). So what a request makes of the record of a key is a matter of this record
alone, wherever it stands among the others (`Keyring.record?_after_eq`), and a record can be
followed from the request that added it: as long as its public key is stored, it is what was added,
with a trace of every call of its private key and of nothing else (`Agent.record?_after`). Every
stored key has such a beginning (`Agent.exists_added`): the latest request that added it.
-/

namespace SecureShell

variable {κ π ι μ : Type}

/-! ### Calls under a public key -/

/-- The data that the private key under a public key was called to sign. -/
def signedUnder (k : Identity) (calls : List (SigningCall κ)) : List Bytes :=
  (calls.filter fun c ↦ c.publicKey = k).map (·.data)

theorem signedUnder_append (k : Identity) (cs ds : List (SigningCall κ)) :
    signedUnder k (cs ++ ds) = signedUnder k cs ++ signedUnder k ds := by
  rw [signedUnder, List.filter_append, List.map_append]
  rfl

/-- A request calls the private key under a public key once, and only if that is granted, or not at
all. -/
theorem Keyring.signedUnder_callsOf_cases [Policy π] (s : Keyring κ π) (now : ℕ) (k : Identity)
    (q : Request κ π ι) :
    signedUnder k (s.callsOf now q) = [] ∨
      ∃ r data, s.granted now k = some r ∧ signedUnder k (s.callsOf now q) = [data] := by
  cases q with
  | sign k' path data =>
    rcases hg : s.granted now k' with - | r
    · exact Or.inl (by simp [callsOf, hg, signedUnder])
    · by_cases hk : k' = k
      · subst hk
        exact Or.inr ⟨r, data, hg, by simp [callsOf, hg, signedUnder]⟩
      · exact Or.inl (by simp [callsOf, hg, signedUnder, hk])
  | _ => exact Or.inl rfl

variable [SigningKey κ] [Policy π]

namespace KeyRecord

/-- A record after its private key was called for one piece of data after the other. -/
def calledFor (r : KeyRecord κ π) (ds : List Bytes) : KeyRecord κ π := ds.foldl called r

theorem calledFor_append (r : KeyRecord κ π) (ds es : List Bytes) :
    r.calledFor (ds ++ es) = (r.calledFor ds).calledFor es :=
  List.foldl_append

/-- The private key goes from call to call. -/
theorem privateKey_calledFor (r : KeyRecord κ π) (ds : List Bytes) :
    (r.calledFor ds).privateKey = ds.foldl (fun x d ↦ (SigningKey.sign x d).2) r.privateKey := by
  induction ds generalizing r with
  | nil => rfl
  | cons d ds ih => exact ih (r.called d)

/-- Every call consumes a use. -/
theorem policy_calledFor (r : KeyRecord κ π) (ds : List Bytes) :
    (r.calledFor ds).policy = Policy.consume^[ds.length] r.policy := by
  induction ds generalizing r with
  | nil => rfl
  | cons d ds ih => exact ih (r.called d)

end KeyRecord

/-! ### One step -/

/-- What a request makes of the record of a key. -/
def Request.act (k : Identity) (now : ℕ) (record : Option (KeyRecord κ π)) :
    Request κ π ι → Option (KeyRecord κ π)
  | .add r => if r.publicKey = k then record.or (some r) else record
  | .delete k' d => if k' = k ∧ record.map (·.description) = some d then none else record
  | .deleteAll => none
  | .sign k' _ data =>
    if k' = k then record.map fun r ↦ if Policy.admits r.policy now then r.called data else r
    else record
  | .lock _ | .unlock _ | .listen _ | .unlisten _ => record

namespace Keyring

variable {s : Keyring κ π} {k : Identity} {r : KeyRecord κ π}

/-- **Public keys come to be stored by being added**, and in no other way. -/
theorem mem_keys_of_mem_keys_after {now : ℕ} {q : Request κ π ι}
    (h : k ∈ (s.after now q).keys) : k ∈ s.keys ∨ ∃ r, q = .add r ∧ r.publicKey = k := by
  cases q with
  | add r =>
    rw [after, keys_insert] at h
    split at h
    · exact Or.inl h
    · rcases List.mem_append.1 h with hk | hr
      · exact Or.inl hk
      · exact Or.inr ⟨r, rfl, (List.mem_singleton.1 hr).symm⟩
  | delete k' d => exact Or.inl ((keys_remove_sublist s k' d).subset h)
  | deleteAll => cases h
  | lock password =>
    rw [after, keys, records_lock] at h
    exact Or.inl h
  | unlock password =>
    rw [after, keys, records_unlock] at h
    exact Or.inl h
  | sign k' path data =>
    rw [after, keys_eq_map_publicKeys, publicKeys_call, ← keys_eq_map_publicKeys] at h
    exact Or.inl h
  | listen l => exact Or.inl h
  | unlisten l => exact Or.inl h

/-- A request for a signature leaves its trace in the record of its key only. -/
theorem record?_call_eq (hs : s.Distinct) (now : ℕ) (k' : Identity) (data : Bytes) :
    (s.call now k' data).record? k =
      if k' = k then
        (s.record? k).map fun r ↦ if Policy.admits r.policy now then r.called data else r
      else s.record? k := by
  rcases hg : s.granted now k' with - | r
  · have hsame : s.call now k' data = s := by rw [call, hg]
    rw [hsame]
    split
    · rename_i hk
      subst hk
      rcases hr : s.record? k' with - | r
      · rfl
      · rw [granted_of_record? hr] at hg
        rw [Option.map_some, if_neg fun hadmits ↦ by simp [hadmits] at hg]
    · rfl
  · obtain ⟨hr, hadmits⟩ := granted_eq_some_iff.1 hg
    have hkeys : (fun q : KeyRecord κ π ↦ q.publicKey == k) ∘
        (fun q ↦ if q.publicKey = k' then q.called data else q) = fun q ↦ q.publicKey == k := by
      funext q
      show ((if q.publicKey = k' then q.called data else q).publicKey == k) = _
      split <;> rfl
    rw [record?, records_call hs hg, List.find?_map, hkeys, ← record?]
    split
    · rename_i hk
      subst hk
      rw [hr, Option.map_some, Option.map_some, if_pos (publicKey_of_record? hr), if_pos hadmits]
    · rename_i hk
      rcases hq : s.record? k with - | q
      · rfl
      · rw [Option.map_some, if_neg]
        rw [publicKey_of_record? hq]
        exact Ne.symm hk

/-- **A request does to the record of a key what it does to this record alone.** -/
theorem record?_after_eq (hs : s.Distinct) (now : ℕ) (q : Request κ π ι) :
    (s.after now q).record? k = q.act k now (s.record? k) := by
  cases q with
  | add r =>
    rw [after, insert_eq, Request.act]
    by_cases hmem : r.publicKey ∈ s.keys
    · rw [if_pos hmem]
      split
      · rename_i hk
        obtain ⟨r', hr'⟩ := exists_record? (hk ▸ hmem)
        rw [hr']
        rfl
      · rfl
    · rw [if_neg hmem]
      show (s.records ++ [r]).find? _ = _
      rw [List.find?_append]
      show (s.record? k).or _ = _
      by_cases hk : r.publicKey = k
      · simp [hk]
      · simp [hk]
  | delete k' d =>
    rw [after, remove, Request.act]
    by_cases hd : s.description? k' = some d
    · rw [if_pos hd, eraseP_eq_filter hs]
      show (s.records.filter _).find? _ = _
      rw [List.find?_filter]
      by_cases hk : k' = k
      · subst hk
        rw [if_pos ⟨rfl, hd⟩, List.find?_eq_none]
        simp
      · rw [if_neg fun h ↦ hk h.1]
        refine congrArg (s.records.find? ·) (funext fun r ↦ ?_)
        by_cases hr : r.publicKey = k
        · simp [hr, Ne.symm hk]
        · simp [hr]
    · rw [if_neg hd, if_neg]
      rintro ⟨rfl, h⟩
      exact hd h
  | deleteAll => rfl
  | lock password =>
    rw [after, record?, records_lock]
    rfl
  | unlock password =>
    rw [after, record?, records_unlock]
    rfl
  | sign k' path data => exact record?_call_eq hs now k' data
  | listen l => rfl
  | unlisten l => rfl

/-- **A stored record keeps a trace of the calls of its private key** and of nothing else. -/
theorem record?_after (hs : s.Distinct) (h : s.record? k = some r) {now : ℕ} {q : Request κ π ι}
    (hk : k ∈ (s.after now q).keys) :
    (s.after now q).record? k = some (r.calledFor (signedUnder k (s.callsOf now q))) := by
  have hstep : (s.after now q).record? k = q.act k now (some r) := by
    rw [record?_after_eq hs, h]
  rw [hstep]
  cases q with
  | add r' =>
    rw [Request.act]
    split <;> rfl
  | delete k' d =>
    rw [Request.act] at hstep ⊢
    split
    · rename_i hdeleted
      rw [if_pos hdeleted, record?_eq_none_iff] at hstep
      exact absurd hk hstep
    · rfl
  | deleteAll => cases hk
  | sign k' path data =>
    rw [Request.act, callsOf]
    split
    · rename_i hk'
      subst hk'
      rw [Option.map_some, granted_of_record? h]
      split
      · simp [signedUnder, KeyRecord.calledFor]
      · rfl
    · rename_i hk'
      rcases s.granted now k' with - | r'
      · rfl
      · simp [signedUnder, hk', KeyRecord.calledFor]
  | _ => rfl

end Keyring

/-! ### Runs -/

namespace Agent

variable [DecidableEq ι] [Listener ι κ π μ] {a : Agent κ π ι} {k : Identity} {r : KeyRecord κ π}

/-- The agent after a run. -/
def after (a : Agent κ π ι) (rs : List (Moment μ × Request κ π ι)) : Agent κ π ι := (a.run rs).1

/-- The calls of private keys in a run. -/
def callsOf (a : Agent κ π ι) (rs : List (Moment μ × Request κ π ι)) : List (SigningCall κ) :=
  (a.run rs).2.flatMap (·.calls)

theorem after_cons (a : Agent κ π ι) (q : Moment μ × Request κ π ι)
    (rs : List (Moment μ × Request κ π ι)) :
    a.after (q :: rs) = (a.serve q.1 q.2).agent.after rs := rfl

theorem callsOf_cons (a : Agent κ π ι) (q : Moment μ × Request κ π ι)
    (rs : List (Moment μ × Request κ π ι)) :
    a.callsOf (q :: rs) =
      a.keyring.callsOf q.1.clock q.2 ++ (a.serve q.1 q.2).agent.callsOf rs := by
  rw [← calls_serve]
  rfl

/-- The number of requests of a run for which the private key under a public key was called. -/
def requestsUnder (a : Agent κ π ι) (k : Identity) (rs : List (Moment μ × Request κ π ι)) : ℕ :=
  (a.run rs).2.countP fun o ↦ o.calls.any fun c ↦ c.publicKey = k

/-- There is one call for each of these requests. -/
theorem requestsUnder_eq (a : Agent κ π ι) (k : Identity) (rs : List (Moment μ × Request κ π ι)) :
    a.requestsUnder k rs = (signedUnder k (a.callsOf rs)).length := by
  induction rs generalizing a with
  | nil => rfl
  | cons q rs ih =>
    have hrun : (a.run (q :: rs)).2 = a.serve q.1 q.2 :: ((a.serve q.1 q.2).agent.run rs).2 := rfl
    have hany : ∀ cs : List (SigningCall κ),
        (cs.any fun c ↦ c.publicKey = k) = true ↔ signedUnder k cs ≠ [] := by
      intro cs
      simp [signedUnder, List.filter_eq_nil_iff]
    rw [callsOf_cons, signedUnder_append, List.length_append, ← ih, requestsUnder, hrun,
      List.countP_cons, ← requestsUnder, calls_serve, Nat.add_comm]
    congr 1
    rcases a.keyring.signedUnder_callsOf_cases q.1.clock k q.2 with h | ⟨r, data, -, h⟩
    · rw [h, if_neg fun hc ↦ (hany _).1 hc h]
      rfl
    · rw [h, if_pos ((hany _).2 (by rw [h]; exact List.cons_ne_nil _ _))]
      rfl

/-- A run goes on from where it was. -/
theorem after_append (a : Agent κ π ι) (rs ts : List (Moment μ × Request κ π ι)) :
    a.after (rs ++ ts) = (a.after rs).after ts := by
  induction rs generalizing a with
  | nil => rfl
  | cons q rs ih => exact ih (a.serve q.1 q.2).agent

/-- **Public keys stay distinct.** -/
theorem distinct_after (h : a.keyring.Distinct) (rs : List (Moment μ × Request κ π ι)) :
    (a.after rs).keyring.Distinct := by
  induction rs generalizing a with
  | nil => exact h
  | cons q rs ih =>
    refine ih (a := (a.serve q.1 q.2).agent) ?_
    rw [keyring_serve]
    exact Keyring.distinct_after h q.1.clock q.2

/-- What a run makes of an agent that has no keys and no listeners. -/
def ofRun (history : List (Moment μ × Request κ π ι)) : Agent κ π ι := empty.after history

theorem ofRun_append (rs ts : List (Moment μ × Request κ π ι)) :
    ofRun (rs ++ ts) = (ofRun rs).after ts :=
  after_append empty rs ts

theorem distinct_ofRun (history : List (Moment μ × Request κ π ι)) :
    (ofRun history).keyring.Distinct :=
  distinct_after Keyring.distinct_empty history

/-- A public key is stored at every moment of a run. -/
def Keeps (a : Agent κ π ι) (k : Identity) (rs : List (Moment μ × Request κ π ι)) : Prop :=
  ∀ p, p <+: rs → k ∈ (a.after p).keyring.keys

theorem Keeps.tail {q : Moment μ × Request κ π ι} {rs : List (Moment μ × Request κ π ι)}
    (h : a.Keeps k (q :: rs)) : (a.serve q.1 q.2).agent.Keeps k rs := fun p hp ↦
  h (q :: p) (List.cons_prefix_cons.2 ⟨rfl, hp⟩)

/-- The first request leaves the public key stored. -/
theorem Keeps.head {q : Moment μ × Request κ π ι} {rs : List (Moment μ × Request κ π ι)}
    (h : a.Keeps k (q :: rs)) : k ∈ (a.keyring.after q.1.clock q.2).keys := by
  rw [← keyring_serve]
  exact h.tail [] List.nil_prefix

/-- **What became of a record**, as long as its public key was stored: its private key was called,
maybe several times, and everything else is as it was. -/
theorem record?_after (hd : a.keyring.Distinct) (h : a.keyring.record? k = some r)
    {rs : List (Moment μ × Request κ π ι)} (hkeeps : a.Keeps k rs) :
    (a.after rs).keyring.record? k = some (r.calledFor (signedUnder k (a.callsOf rs))) := by
  -- From the front of the run, since the record that the rest starts from has the first traces.
  induction rs generalizing a r with
  | nil => exact h
  | cons q rs ih =>
    have hstep := Keyring.record?_after hd h hkeeps.head
    have hdistinct := Keyring.distinct_after hd q.1.clock q.2
    rw [← keyring_serve] at hstep hdistinct
    rw [after_cons, callsOf_cons, signedUnder_append, ih hdistinct hstep hkeeps.tail,
      KeyRecord.calledFor_append]

/-! ### Where records come from -/

theorem Keeps.concat {rs : List (Moment μ × Request κ π ι)} {q : Moment μ × Request κ π ι}
    (h : a.Keeps k rs) (hk : k ∈ (a.after (rs ++ [q])).keyring.keys) : a.Keeps k (rs ++ [q]) := by
  intro p hp
  rcases List.prefix_concat_iff.1 hp with rfl | hp
  · exact hk
  · exact h p hp

/-- A run taken apart at a request that added a key: the key was not stored before, and has been
stored ever since. -/
structure Added (before : List (Moment μ × Request κ π ι)) (t : Moment μ) (r : KeyRecord κ π)
    (between : List (Moment μ × Request κ π ι)) : Prop where
  /-- The key was not stored before. -/
  absent : r.publicKey ∉ (ofRun before).keyring.keys
  /-- The key has been stored ever since. -/
  kept : (ofRun (before ++ [(t, .add r)])).Keeps r.publicKey between

variable {before between : List (Moment μ × Request κ π ι)} {t : Moment μ}

/-- Right after it was added, the record of a key is the one that was added. -/
theorem Added.record?_add (h : Added before t r between) :
    (ofRun (before ++ [(t, .add r)])).keyring.record? r.publicKey = some r := by
  have hadd : (ofRun (before ++ [(t, .add r)])).keyring = ((ofRun before).keyring.insert r).2 := by
    rw [ofRun_append]
    exact keyring_serve _ t (.add r)
  have hdistinct := Keyring.distinct_insert (distinct_ofRun before) r
  rw [hadd, Keyring.record?_eq_some_iff hdistinct, Keyring.insert_eq, if_neg h.absent]
  exact ⟨List.mem_append_right _ List.mem_cons_self, rfl⟩

/-- **The record of a key is the one that was added**, with the traces of all calls since. -/
theorem Added.record? (h : Added before t r between) :
    (ofRun (before ++ (t, .add r) :: between)).keyring.record? r.publicKey =
      some (r.calledFor
        (signedUnder r.publicKey ((ofRun (before ++ [(t, .add r)])).callsOf between))) := by
  rw [List.append_cons, ofRun_append]
  exact record?_after (distinct_ofRun _) h.record?_add h.kept

/-- **Every stored key was added at some time and has been stored ever since.** -/
theorem exists_added {history : List (Moment μ × Request κ π ι)}
    (hk : k ∈ (ofRun history).keyring.keys) :
    ∃ before t r between, history = before ++ (t, .add r) :: between ∧ r.publicKey = k ∧
      Added before t r between := by
  -- From the end of the run, since the latest request that added the key is the one that counts.
  induction history using List.reverseRecOn with
  | nil => cases hk
  | append_singleton history q ih =>
    by_cases hbefore : k ∈ (ofRun history).keyring.keys
    · obtain ⟨before, t, r, between, rfl, rfl, h⟩ := ih hbefore
      refine ⟨before, t, r, between ++ [q], by simp, rfl, h.absent, h.kept.concat ?_⟩
      rw [← ofRun_append]
      simpa using hk
    -- The last request is the one that added the key.
    · have hstep : k ∈ ((ofRun history).keyring.after q.1.clock q.2).keys := by
        rw [ofRun_append] at hk
        rw [← keyring_serve]
        exact hk
      rcases Keyring.mem_keys_of_mem_keys_after hstep with hk' | ⟨r, hq, rfl⟩
      · exact absurd hk' hbefore
      · obtain ⟨t, q⟩ := q
        obtain rfl : q = .add r := hq
        refine ⟨history, t, r, [], rfl, rfl, hbefore, fun p hp ↦ ?_⟩
        obtain rfl := List.prefix_nil.1 hp
        exact hk

end Agent

end SecureShell

import SecureShell.Proofs.Agent.Run

/-!
# The agent as a map in the order of insertion

Seen from outside, the keys of an agent are a map from public keys to descriptions that keeps its
entries in the order in which they came (`KeyMap`). The map does not know of private keys, policies,
listeners and time, and a request does to it what it does to the agent (`Keyring.publicKeys_after`);
so the map after a run can be told from the requests alone (`Agent.publicKeys_after`).

Private keys are hidden from that view. What is said of them is where they come from: a signature is
made with the key that came with the record, however often it was called since.
-/

namespace SecureShell

variable {κ π ι μ : Type}

/-! ### Maps in the order of insertion -/

/-- Public keys with their descriptions, in the order in which they were added. -/
abbrev KeyMap := List (Identity × String)

namespace KeyMap

/-- The map after a request. A public key is added at the end, and only if it is not there; it is
deleted only under its own description. -/
def step (m : KeyMap) : Request κ π ι → KeyMap
  | .add r => if r.publicKey ∈ m.map Prod.fst then m else m ++ [(r.publicKey, r.description)]
  | .delete k d => if (k, d) ∈ m then m.filter fun e ↦ e.1 ≠ k else m
  | .deleteAll => []
  | _ => m

/-- The map after a run that starts without keys. -/
def ofRun (history : List (Moment μ × Request κ π ι)) : KeyMap :=
  history.foldl (fun m q ↦ m.step q.2) []

end KeyMap

/-- What can be asked of a keyring describes a map in the order of insertion. -/
structure Keyring.Shows (s : Keyring κ π) (m : KeyMap) : Prop where
  /-- The keys with their descriptions are the entries. -/
  publicKeys : s.publicKeys = m
  /-- No public key is stored twice. -/
  distinct : (m.map Prod.fst).Nodup
  /-- The public key at a position is that of the entry there. -/
  elementAt : ∀ i, s.elementAt? i = m[i]?.map Prod.fst
  /-- Positions and public keys determine each other. -/
  indexOf : ∀ i k, s.elementAt? i = some k ↔ s.indexOf? k = some i
  /-- The size is the number of entries. -/
  size : s.size = m.length
  /-- There are no keys if there are no entries. -/
  isEmpty : s.isEmpty = true ↔ m = []
  /-- The description of a public key is that of its entry. -/
  description : ∀ k d, s.description? k = some d ↔ (k, d) ∈ m

theorem Keyring.shows (s : Keyring κ π) (hs : s.Distinct) : s.Shows s.publicKeys where
  publicKeys := rfl
  distinct := by
    rw [← keys_eq_map_publicKeys]
    exact hs
  elementAt i := by
    rw [elementAt?_eq, keys_eq_map_publicKeys, List.getElem?_map]
  indexOf _ _ := elementAt?_eq_some_iff hs
  size := (List.length_map _).symm
  isEmpty := by
    rw [isEmpty, List.isEmpty_iff, publicKeys, List.map_eq_nil_iff]
  description _ _ := description?_eq_some_iff hs

/-! ### Requests act on the map -/

variable [SigningKey κ] [Policy π]

/-- **A request does to the map what it does to the keyring.** -/
theorem Keyring.publicKeys_after {s : Keyring κ π} (hs : s.Distinct) (now : ℕ)
    (q : Request κ π ι) : (s.after now q).publicKeys = KeyMap.step s.publicKeys q := by
  cases q with
  | add r =>
    rw [after, insert_eq, KeyMap.step, ← keys_eq_map_publicKeys]
    split
    · rfl
    · exact List.map_append
  | delete k d =>
    rw [after, remove_eq hs, KeyMap.step]
    split
    · rw [publicKeys, publicKeys, List.filter_map]
      rfl
    · rfl
  | deleteAll => rfl
  | lock password =>
    rw [after, publicKeys, records_lock]
    rfl
  | unlock password =>
    rw [after, publicKeys, records_unlock]
    rfl
  | sign k path data => exact publicKeys_call s now k data
  | listen l => rfl
  | unlisten l => rfl

namespace Agent

variable [DecidableEq ι] [Listener ι κ π μ]

/-- **The map after a run can be told from the requests.** -/
theorem publicKeys_after {a : Agent κ π ι} (h : a.keyring.Distinct)
    (rs : List (Moment μ × Request κ π ι)) :
    (a.after rs).keyring.publicKeys =
      rs.foldl (fun m q ↦ KeyMap.step m q.2) a.keyring.publicKeys := by
  induction rs generalizing a with
  | nil => rfl
  | cons q rs ih =>
    have hstep := Keyring.publicKeys_after h q.1.clock q.2
    have hdistinct := Keyring.distinct_after h q.1.clock q.2
    rw [← keyring_serve] at hstep hdistinct
    rw [after_cons, ih hdistinct, hstep, List.foldl_cons]

/-! ### What requests do to records and answer -/

/-- An agent with other records. -/
def withRecords (a : Agent κ π ι) (rs : List (KeyRecord κ π)) : Agent κ π ι :=
  { a with keyring := { a.keyring with records := rs } }

/-- What every request does to the records of an agent, and what it answers. A listener that raises
takes away an answer, and nothing else. -/
structure KeepsOrder (μ : Type) [Listener ι κ π μ] (a : Agent κ π ι) : Prop where
  /-- An absent key is added at the end. -/
  add_absent : ∀ (now : Moment μ) r, r.publicKey ∉ a.keyring.keys →
    (a.serve now (.add r)).agent = a.withRecords (a.keyring.records ++ [r]) ∧
    (a.serve now (.add r)).answer =
      if (a.withRecords (a.keyring.records ++ [r])).raises now.memory .added then none
      else some (.accepted true)
  /-- A stored key is not added again, and nothing changes. -/
  add_stored : ∀ (now : Moment μ) r, r.publicKey ∈ a.keyring.keys →
    (a.serve now (.add r)).agent = a ∧
    (a.serve now (.add r)).answer = some (.accepted false)
  /-- A key is deleted under its description, and all others stay in their order. -/
  delete_listed : ∀ (now : Moment μ) k d, (k, d) ∈ a.keyring.publicKeys →
    (a.serve now (.delete k d)).agent =
      a.withRecords (a.keyring.records.filter fun r ↦ r.publicKey ≠ k) ∧
    (a.serve now (.delete k d)).answer =
      if (a.withRecords (a.keyring.records.filter fun r ↦ r.publicKey ≠ k)).raises now.memory
        .deleted
      then none else some (.accepted true)
  /-- Under another description nothing is deleted. -/
  delete_unlisted : ∀ (now : Moment μ) k d, (k, d) ∉ a.keyring.publicKeys →
    (a.serve now (.delete k d)).agent = a ∧
    (a.serve now (.delete k d)).answer = some (.accepted false)
  /-- All keys can be deleted. -/
  deleteAll : ∀ now : Moment μ, (a.serve now .deleteAll).agent = a.withRecords []
  /-- Locking leaves the records alone. -/
  lock : ∀ (now : Moment μ) password,
    (a.serve now (.lock password)).agent.keyring.records = a.keyring.records
  /-- Unlocking leaves the records alone. -/
  unlock : ∀ (now : Moment μ) password,
    (a.serve now (.unlock password)).agent.keyring.records = a.keyring.records
  /-- A signature leaves the keys, their descriptions and their order alone. -/
  sign : ∀ (now : Moment μ) k path data,
    (a.serve now (.sign k path data)).agent.keyring.publicKeys = a.keyring.publicKeys
  /-- A new listener leaves the keyring alone. -/
  listen : ∀ (now : Moment μ) l, (a.serve now (.listen l)).agent.keyring = a.keyring
  /-- A removed listener leaves the keyring alone. -/
  unlisten : ∀ (now : Moment μ) l, (a.serve now (.unlisten l)).agent.keyring = a.keyring

/-- Public keys that are distinct are all it takes. -/
theorem keepsOrder (a : Agent κ π ι) (h : a.keyring.Distinct) : a.KeepsOrder μ where
  add_absent now r hr := by
    have hadd : a.add now.memory r =
        (a.withRecords (a.keyring.records ++ [r])).announce now.memory .added true
          [.added r.publicKey.fingerprint r.description] := by
      rw [add, Keyring.insert_eq, if_neg hr]
      rfl
    show (a.add now.memory r).agent = _ ∧ (a.add now.memory r).answer.map _ = _
    rw [hadd, answer_announce]
    refine ⟨rfl, ?_⟩
    split <;> rfl
  add_stored now r hr := by
    have hadd : a.add now.memory r =
        a.settle now.memory false [.present r.publicKey.fingerprint] := by
      rw [add, Keyring.insert_eq, if_pos hr]
    show (a.add now.memory r).agent = _ ∧ (a.add now.memory r).answer.map _ = _
    rw [hadd]
    exact ⟨rfl, rfl⟩
  delete_listed now k d hk := by
    have hdelete : a.delete now.memory k d =
        (a.withRecords (a.keyring.records.filter fun r ↦ r.publicKey ≠ k)).announce now.memory
          .deleted true [.deleted k.fingerprint] := by
      rw [delete, Keyring.remove_eq h, if_pos hk]
      rfl
    show (a.delete now.memory k d).agent = _ ∧ (a.delete now.memory k d).answer.map _ = _
    rw [hdelete, answer_announce]
    refine ⟨rfl, ?_⟩
    split <;> rfl
  delete_unlisted now k d hk := by
    have hdelete : a.delete now.memory k d = a.settle now.memory false [] := by
      rw [delete, Keyring.remove_eq h, if_neg hk]
    show (a.delete now.memory k d).agent = _ ∧ (a.delete now.memory k d).answer.map _ = _
    rw [hdelete]
    exact ⟨rfl, rfl⟩
  deleteAll now := rfl
  lock now password := by
    rw [keyring_serve]
    exact Keyring.records_lock _ _
  unlock now password := by
    rw [keyring_serve]
    exact Keyring.records_unlock _ _
  sign now k path data := by
    rw [keyring_serve]
    exact Keyring.publicKeys_call _ _ _ _
  listen now l := rfl
  unlisten now l := rfl

/-! ### Whose private key signs -/

/-- A signature is one of the stored private key. -/
theorem sign_of_answer {a : Agent κ π ι} {now : Moment μ} {k : Identity} {path : List ForwardingHop}
    {data : Bytes} {sig : Signature}
    (h : (a.serve now (.sign k path data)).answer = some (.signature (.ok sig))) :
    ∃ r, a.keyring.record? k = some r ∧ (SigningKey.sign r.privateKey data).1 = .ok sig := by
  have hanswer : (a.sign now k path data).answer.map Answer.signature =
      some (.signature (.ok sig)) := h
  rcases hg : a.keyring.granted now.clock k with - | r
  · obtain ⟨log, hsign⟩ := sign_of_not_granted hg path data
    rw [hsign] at hanswer
    cases hanswer
  · obtain ⟨o, hsign, -, -, hcases⟩ := sign_of_granted hg path data
    have ho : o.answer.map Answer.signature = some (.signature (.ok sig)) := by
      rw [hsign] at hanswer
      exact hanswer
    refine ⟨r, (Keyring.granted_eq_some_iff.1 hg).1, ?_⟩
    rw [hcases] at ho
    rcases hs : (SigningKey.sign r.privateKey data).1 with e | sig'
    · rw [hs] at ho
      cases ho
    · rw [hs] at ho
      simp only at ho
      split at ho
      · cases ho
      · cases ho
        rfl

/-- **The agent keeps its keys like a map in the order of insertion.** After every run that starts
without keys: what can be asked of the keyring describes the map that the requests of the run make;
every further request does to the records what it should do to such a map; and a signature is made
with the private key that came with the request that created the record, after all its calls
since. -/
theorem run_keepsOrder (history : List (Moment μ × Request κ π ι)) :
    let a : Agent κ π ι := ofRun history
    a.keyring.Shows (KeyMap.ofRun history) ∧ a.KeepsOrder μ ∧
      ∀ (now : Moment μ) k path data sig,
        (a.serve now (.sign k path data)).answer = some (.signature (.ok sig)) →
        ∃ before t r between, history = before ++ (t, .add r) :: between ∧ r.publicKey = k ∧
          Added before t r between ∧
          (SigningKey.sign
            ((signedUnder k ((ofRun (before ++ [(t, .add r)])).callsOf between)).foldl
              (fun x d ↦ (SigningKey.sign x d).2) r.privateKey) data).1 = .ok sig := by
  intro a
  have hdistinct : a.keyring.Distinct := distinct_ofRun history
  have hmap : a.keyring.publicKeys = KeyMap.ofRun history :=
    publicKeys_after Keyring.distinct_empty history
  refine ⟨hmap ▸ a.keyring.shows hdistinct, a.keepsOrder hdistinct, ?_⟩
  intro now k path data sig hanswer
  obtain ⟨q, hq, hsig⟩ := sign_of_answer hanswer
  have hk : k ∈ a.keyring.keys :=
    Keyring.mem_keys.2 ⟨q, Keyring.mem_records_of_record? hq, Keyring.publicKey_of_record? hq⟩
  obtain ⟨before, t, r, between, rfl, rfl, hadded⟩ := exists_added hk
  refine ⟨before, t, r, between, rfl, rfl, hadded, ?_⟩
  have hrecord := hadded.record?
  rw [hq] at hrecord
  rw [← KeyRecord.privateKey_calledFor, ← Option.some.inj hrecord]
  exact hsig

end Agent

end SecureShell

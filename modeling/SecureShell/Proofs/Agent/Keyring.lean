import SecureShell.Agent.Keyring
import SecureShell.Proofs.Bytes
import Mathlib.Data.List.Nodup

/-!
# Keyrings with distinct public keys

All look-ups of a keyring take the first record that fits, and so do removal and renewal. That they
speak of one and the same record is not a matter of the look-ups but of the records: no public key
is stored twice (`Keyring.Distinct`). Under this invariant a look-up is membership
(`Keyring.record?_eq_some_iff`), a position and a public key determine each other
(`Keyring.elementAt?_eq_some_iff`), and every change is one of all records at once, a filter or a
map, from which its effect on a single key can be read off.
-/

namespace SecureShell.Keyring

variable {κ π : Type} {s : Keyring κ π} {k : Identity} {r : KeyRecord κ π}

/-- The public keys, in order. -/
def keys (s : Keyring κ π) : List Identity := s.records.map (·.publicKey)

/-- No public key is stored twice. -/
def Distinct (s : Keyring κ π) : Prop := s.keys.Nodup

theorem distinct_empty : (empty : Keyring κ π).Distinct := List.nodup_nil

/-! ### Looking things up -/

theorem mem_keys : k ∈ s.keys ↔ ∃ r ∈ s.records, r.publicKey = k := List.mem_map

theorem contains_iff : s.contains k = true ↔ k ∈ s.keys := by
  rw [contains, indexOf?, List.findIdx?_isSome, List.any_eq_true, mem_keys]
  simp only [beq_iff_eq]

/-- A public key without a record is one that is not stored. -/
theorem record?_eq_none_iff : s.record? k = none ↔ k ∉ s.keys := by
  rw [record?, List.find?_eq_none, mem_keys]
  simp only [beq_iff_eq, not_exists, not_and]

theorem publicKey_of_record? (h : s.record? k = some r) : r.publicKey = k := by
  rw [record?] at h
  have hr := List.find?_some h
  exact beq_iff_eq.1 hr

theorem mem_records_of_record? (h : s.record? k = some r) : r ∈ s.records :=
  List.mem_of_find?_eq_some h

/-- A stored public key has a record. -/
theorem exists_record? (h : k ∈ s.keys) : ∃ r, s.record? k = some r := by
  rcases hr : s.record? k with - | r
  · exact absurd h (record?_eq_none_iff.1 hr)
  · exact ⟨r, rfl⟩

/-- **Looking up a public key is finding its record**, whichever one it is. -/
theorem record?_eq_some_iff (hs : s.Distinct) :
    s.record? k = some r ↔ r ∈ s.records ∧ r.publicKey = k := by
  constructor
  · intro h
    exact ⟨mem_records_of_record? h, publicKey_of_record? h⟩
  · rintro ⟨hr, rfl⟩
    -- The look-up gives some record with this public key, and there is only one.
    obtain ⟨q, hq⟩ := exists_record? (mem_keys.2 ⟨r, hr, rfl⟩)
    have hqr := publicKey_of_record? hq
    rw [hq, List.inj_on_of_nodup_map hs (mem_records_of_record? hq) hr hqr]

/-- A description is listed next to its public key. -/
theorem description?_eq_some_iff (hs : s.Distinct) {d : String} :
    s.description? k = some d ↔ (k, d) ∈ s.publicKeys := by
  rw [description?, Option.map_eq_some_iff, publicKeys, List.mem_map]
  constructor
  · rintro ⟨r, hr, rfl⟩
    obtain ⟨hmem, rfl⟩ := (record?_eq_some_iff hs).1 hr
    exact ⟨r, hmem, rfl⟩
  · rintro ⟨r, hmem, h⟩
    obtain ⟨rfl, rfl⟩ := Prod.mk.inj h
    exact ⟨r, (record?_eq_some_iff hs).2 ⟨hmem, rfl⟩, rfl⟩

theorem elementAt?_eq (i : ℕ) : s.elementAt? i = s.keys[i]? := by
  rw [elementAt?, keys, List.getElem?_map]

/-- **Positions and public keys determine each other.** -/
theorem elementAt?_eq_some_iff (hs : s.Distinct) {i : ℕ} :
    s.elementAt? i = some k ↔ s.indexOf? k = some i := by
  have hindex : s.indexOf? k = s.keys.findIdx? (· == k) := by
    rw [indexOf?, keys, List.findIdx?_map]
    rfl
  rw [elementAt?_eq, hindex, List.findIdx?_eq_some_iff_getElem, List.getElem?_eq_some_iff]
  constructor
  · rintro ⟨hi, rfl⟩
    -- At an earlier position there is another public key.
    refine ⟨hi, beq_self_eq_true _, fun j hj h ↦ ?_⟩
    have hij := (List.Nodup.getElem_inj_iff hs).1 (beq_iff_eq.1 h)
    omega
  · rintro ⟨hi, hk, -⟩
    exact ⟨hi, beq_iff_eq.1 hk⟩

/-! ### Adding and removing -/

/-- A record is added at the end, or nothing changes. -/
theorem insert_eq (s : Keyring κ π) (r : KeyRecord κ π) :
    s.insert r = if r.publicKey ∈ s.keys then (false, s)
      else (true, { s with records := s.records ++ [r] }) := by
  rw [insert]
  simp only [contains_iff]

theorem keys_insert (s : Keyring κ π) (r : KeyRecord κ π) :
    (s.insert r).2.keys = if r.publicKey ∈ s.keys then s.keys else s.keys ++ [r.publicKey] := by
  rw [insert_eq]
  split
  · rfl
  · exact List.map_append

theorem distinct_insert (hs : s.Distinct) (r : KeyRecord κ π) : (s.insert r).2.Distinct := by
  rw [Distinct, keys_insert]
  split
  · exact hs
  · rename_i h
    rw [List.nodup_append_comm, List.singleton_append]
    exact List.nodup_cons.2 ⟨h, hs⟩

/-- In a list without repetitions the first fitting record is the only one. -/
theorem ne_of_nodup_cons {rs : List (KeyRecord κ π)} (h : ((r :: rs).map (·.publicKey)).Nodup)
    (hk : r.publicKey = k) : ∀ q ∈ rs, q.publicKey ≠ k := by
  intro q hq hqk
  exact (List.nodup_cons.1 h).1 (List.mem_map.2 ⟨q, hq, hqk.trans hk.symm⟩)

theorem eraseP_eq_filter {rs : List (KeyRecord κ π)} (h : (rs.map (·.publicKey)).Nodup) :
    rs.eraseP (·.publicKey == k) = rs.filter fun r ↦ r.publicKey ≠ k := by
  induction rs with
  | nil => rfl
  | cons r rs ih =>
    by_cases hk : r.publicKey = k
    · have hrest := ne_of_nodup_cons h hk
      rw [List.eraseP_cons_of_pos (by simpa using hk), List.filter_cons_of_neg (by simpa using hk)]
      exact (List.filter_eq_self.2 fun q hq ↦ by simpa using hrest q hq).symm
    · rw [List.eraseP_cons_of_neg (by simpa using hk), List.filter_cons_of_pos (by simpa using hk),
        ih (List.nodup_cons.1 h).2]

/-- **Removal takes out the record of a public key** and leaves all others, if the description is
the one that is listed next to the public key. -/
theorem remove_eq (hs : s.Distinct) (k : Identity) (d : String) :
    s.remove k d = if (k, d) ∈ s.publicKeys then
      (true, { s with records := s.records.filter fun r ↦ r.publicKey ≠ k }) else (false, s) := by
  rw [remove, eraseP_eq_filter hs]
  simp only [description?_eq_some_iff hs]

theorem keys_remove_sublist (s : Keyring κ π) (k : Identity) (d : String) :
    (s.remove k d).2.keys.Sublist s.keys := by
  rw [remove]
  split
  · exact List.Sublist.map _ List.eraseP_sublist
  · exact List.Sublist.refl _

theorem distinct_remove (hs : s.Distinct) (k : Identity) (d : String) :
    (s.remove k d).2.Distinct :=
  (keys_remove_sublist s k d).nodup hs

/-! ### Renewing -/

/-- Renewal changes neither public keys nor descriptions, nor their order. -/
theorem publicKeys_renew (s : Keyring κ π) (k : Identity) (x : κ) (p : π) :
    (s.renew k x p).publicKeys = s.publicKeys := by
  show (renewFirst k x p s.records).map _ = s.records.map _
  induction s.records with
  | nil => rfl
  | cons r rs ih =>
    rw [renewFirst]
    split
    · rfl
    · rw [List.map_cons, ih, List.map_cons]

theorem keys_eq_map_publicKeys (s : Keyring κ π) : s.keys = s.publicKeys.map Prod.fst := by
  rw [keys, publicKeys, List.map_map]
  rfl

theorem renewFirst_eq_map {rs : List (KeyRecord κ π)} (h : (rs.map (·.publicKey)).Nodup) (x : κ)
    (p : π) : renewFirst k x p rs = rs.map fun r ↦
      if r.publicKey = k then { r with privateKey := x, policy := p } else r := by
  induction rs with
  | nil => rfl
  | cons r rs ih =>
    rw [renewFirst, List.map_cons]
    by_cases hk : r.publicKey = k
    · have hrest := ne_of_nodup_cons h hk
      rw [if_pos hk, if_pos hk, List.map_congr_left fun q hq ↦ if_neg (hrest q hq), List.map_id']
    · rw [if_neg hk, if_neg hk, ih (List.nodup_cons.1 h).2]

/-- **Renewal concerns the record of one public key only.** -/
theorem records_renew (hs : s.Distinct) (k : Identity) (x : κ) (p : π) :
    (s.renew k x p).records = s.records.map fun r ↦
      if r.publicKey = k then { r with privateKey := x, policy := p } else r :=
  renewFirst_eq_map hs x p

/-! ### Locking -/

/-- The bytes of the password that the keyring is locked with. -/
def custody (s : Keyring κ π) : Option Bytes := s.password.map (·.bytes)

/-- A keyring can be locked while it is not. -/
theorem lock_eq (s : Keyring κ π) (password : String) :
    s.lock password = if s.custody = none then
      (true, { s with password := some (Secret.ofText password) }) else (false, s) := by
  rw [lock, custody]
  rcases s.password with - | p
  · rfl
  · rfl

/-- A keyring can be unlocked with the very bytes that it was locked with. -/
theorem unlock_eq (s : Keyring κ π) (password : String) :
    s.unlock password = if s.custody = some (utf8 password) then
      (true, { s with password := none }) else (false, s) := by
  rw [unlock, custody]
  rcases s.password with - | p
  · rfl
  · simp only [Secret.agrees_iff, Option.map_some, Option.some.injEq]

theorem records_lock (s : Keyring κ π) (password : String) :
    (s.lock password).2.records = s.records := by
  rw [lock]
  split <;> rfl

theorem records_unlock (s : Keyring κ π) (password : String) :
    (s.unlock password).2.records = s.records := by
  rw [unlock]
  split
  · rfl
  · split <;> rfl

end SecureShell.Keyring

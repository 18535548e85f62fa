import SecureShell.Agent.Policy
import SecureShell.Agent.SigningKey
import SecureShell.Secret
import SecureShell.Text.Quoted

/-!
# Keyrings

The keys of an agent in the order in which they were added, each with a description and a policy,
and the password that the agent is locked with. A public key is stored at most once.
-/

namespace SecureShell

/-- A stored key. -/
structure KeyRecord (κ π : Type) where
  /-- The public key that the record is found by. -/
  publicKey : Identity
  /-- The private key. -/
  privateKey : κ
  /-- What the owner calls it. -/
  description : String
  /-- What limits its use. -/
  policy : π

/-- The keys and the lock of an agent. -/
structure Keyring (κ π : Type) where
  /-- The records, in the order in which they were added. -/
  records : List (KeyRecord κ π)
  /-- The password, if the keyring is locked. -/
  password : Option Secret

namespace Keyring

variable {κ π : Type}

/-- A keyring without keys that is not locked. -/
def empty : Keyring κ π := ⟨[], none⟩

/-! ### Looking things up -/

/-- The record of a public key. -/
def record? (s : Keyring κ π) (k : Identity) : Option (KeyRecord κ π) :=
  s.records.find? (·.publicKey == k)

/-- All public keys with their descriptions, in order. -/
def publicKeys (s : Keyring κ π) : List (Identity × String) :=
  s.records.map fun r ↦ (r.publicKey, r.description)

/-- The position of a public key. -/
def indexOf? (s : Keyring κ π) (k : Identity) : Option Nat :=
  s.records.findIdx? (·.publicKey == k)

/-- Whether a public key is stored. -/
def contains (s : Keyring κ π) (k : Identity) : Bool := (s.indexOf? k).isSome

/-- The public key at a position. -/
def elementAt? (s : Keyring κ π) (i : Nat) : Option Identity :=
  s.records[i]?.map (·.publicKey)

/-- The description of a public key. -/
def description? (s : Keyring κ π) (k : Identity) : Option String :=
  (s.record? k).map (·.description)

/-- The policy of a public key. -/
def policy? (s : Keyring κ π) (k : Identity) : Option π := (s.record? k).map (·.policy)

/-- The number of keys. -/
def size (s : Keyring κ π) : Nat := s.records.length

/-- Whether there are no keys. -/
def isEmpty (s : Keyring κ π) : Bool := s.records.isEmpty

/-- Whether the keyring is locked. -/
def isLocked (s : Keyring κ π) : Bool := s.password.isSome

/-! ### Changes -/

/-- Adds a record at the end, unless its public key is stored already. -/
def insert (s : Keyring κ π) (r : KeyRecord κ π) : Bool × Keyring κ π :=
  if s.contains r.publicKey then (false, s)
  else (true, { s with records := s.records ++ [r] })

/-- Removes the record of a public key, if it has the given description. -/
def remove (s : Keyring κ π) (k : Identity) (description : String) : Bool × Keyring κ π :=
  if s.description? k = some description then
    (true, { s with records := s.records.eraseP (·.publicKey == k) })
  else (false, s)

/-- Replaces the private key and the policy of the first record of a public key. -/
def renewFirst (k : Identity) (privateKey : κ) (policy : π) :
    List (KeyRecord κ π) → List (KeyRecord κ π)
  | [] => []
  | r :: rs =>
    if r.publicKey = k then { r with privateKey := privateKey, policy := policy } :: rs
    else r :: renewFirst k privateKey policy rs

/-- Replaces the private key and the policy of the record of a public key. -/
def renew (s : Keyring κ π) (k : Identity) (privateKey : κ) (policy : π) : Keyring κ π :=
  { s with records := renewFirst k privateKey policy s.records }

/-- Removes all records. -/
def clear (s : Keyring κ π) : Keyring κ π := { s with records := [] }

/-- Locks the keyring with a password, unless it is locked already. -/
def lock (s : Keyring κ π) (password : String) : Bool × Keyring κ π :=
  match s.password with
  | some _ => (false, s)
  | none => (true, { s with password := some (Secret.ofText password) })

/-- Unlocks the keyring, if it is locked with this password. -/
def unlock (s : Keyring κ π) (password : String) : Bool × Keyring κ π :=
  match s.password with
  | none => (false, s)
  | some p => if p.agrees (utf8 password) then (true, { s with password := none }) else (false, s)

/-- What is shown of a keyring: the fingerprints of its keys and whether it is locked. -/
def description (s : Keyring κ π) : String :=
  Text.labelled "KeyStore"
    [("keys", Text.quotedList (s.records.map fun r ↦ r.publicKey.fingerprint)),
      ("locked", Text.truth s.isLocked)]

end Keyring

end SecureShell

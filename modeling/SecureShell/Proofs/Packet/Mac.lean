import SecureShell.Packet.Mac
import SecureShell.Proofs.Packet.Key

/-!
# Tags follow the key

An instance of a message authentication code is called any number of times, and what it has become
is a matter of the keys it was given (`MacAlgorithm.after_fresh`). What it answers then is listed in
`MacAlgorithm.FollowsKeys`, and `MacAlgorithm.followsKeys_hmac` proves it for all hash functions at
once: no property of a hash function is used but the length of its digests.
-/

namespace SecureShell

/-- A call of an instance of a message authentication code, with all that it is given. -/
inductive MacCall where
  /-- Gives a key. -/
  | init (key : Bytes)
  /-- Asks for the tag of a packet. -/
  | sign (seq : UInt32) (packet : Bytes)
  /-- Checks the tag of a packet. -/
  | verify (seq : UInt32) (packet tag : Bytes)

/-- The key that a call gives. -/
def MacCall.key? : MacCall → Option Bytes
  | init key => some key
  | sign _ _ | verify _ _ _ => none

namespace MacContext

/-- A key is taken exactly if it has the right length. -/
theorem init_fst (c : MacContext) (key : Bytes) : (c.init key).1 =
    if key.length = c.algorithm.keyLength then .ok () else .error .invalidKeyLength := by
  rw [init, apply_ite Prod.fst]
  exact ite_not ..

/-- A key that is refused leaves everything as it was. -/
theorem init_snd (c : MacContext) (key : Bytes) : (c.init key).2 =
    if key.length = c.algorithm.keyLength then { c with key := some key } else c := by
  rw [init, apply_ite Prod.snd]
  exact ite_not ..

/-- An instance after a call. Tags do not change it. -/
def call (c : MacContext) : MacCall → MacContext
  | .init key => (c.init key).2
  | .sign _ _ | .verify _ _ _ => c

/-- An instance after one call after the other. -/
def after (c : MacContext) (calls : List MacCall) : MacContext := calls.foldl call c

section Tags

variable {a : MacAlgorithm} {c : MacContext} {seq : UInt32} {packet : Bytes}

theorem sign_none : sign ⟨a, none⟩ seq packet = .error .notInitialized := rfl

theorem sign_some {key : Bytes} :
    sign ⟨a, some key⟩ seq packet = .ok (a.tag key (bigEndian 4 seq.toNat ++ packet)) := rfl

theorem verify_of_sign_eq_ok {expected : Bytes} (h : c.sign seq packet = .ok expected)
    (tag : Bytes) : c.verify seq packet tag =
      if tag = expected then .ok () else .error .integrityCheckFailed := by
  rw [verify, h]

theorem verify_of_sign_eq_error {e : CryptoError} (h : c.sign seq packet = .error e)
    (tag : Bytes) : c.verify seq packet tag = .error e := by
  rw [verify, h]

end Tags

end MacContext

namespace MacAlgorithm

/-- **What an instance has become**: it has the last key of the right length that it was given. -/
theorem after_fresh (a : MacAlgorithm) (calls : List MacCall) :
    a.fresh.after calls = ⟨a, keyInForce a.keyLength (calls.filterMap MacCall.key?)⟩ := by
  refine foldl_eq_keyInForce (MacContext.mk a) (fun k call key hkey ↦ ?_)
    (fun k call hkey ↦ ?_) calls
  · cases call with
    | init key' =>
      cases hkey
      exact MacContext.init_snd ⟨a, k⟩ key
    | sign | verify => cases hkey
  · cases call with
    | init key => cases hkey
    | sign | verify => rfl

/-- **The tags of an instance follow its keys.** The instance `c` has been called with `calls`; its
keys and its tags have `n` bytes, and its tags are the codes of the hash function `H`. -/
structure FollowsKeys (H : Digest.HashFunction) (n : ℕ) (calls : List MacCall) (c : MacContext) :
    Prop where
  /-- Keys and tags have that length. -/
  length_eq : c.algorithm.keyLength = n ∧ c.algorithm.tagLength = n
  /-- A key is taken exactly if it has the right length. -/
  init_eq : ∀ key, (c.init key).1 = if key.length = n then .ok () else .error .invalidKeyLength
  /-- Until a key has been taken, there are no tags. -/
  sign_keyless : keyInForce n (calls.filterMap MacCall.key?) = none →
    ∀ seq packet, c.sign seq packet = .error .notInitialized
  /-- Nor are any checked. -/
  verify_keyless : keyInForce n (calls.filterMap MacCall.key?) = none →
    ∀ seq packet tag, c.verify seq packet tag = .error .notInitialized
  /-- From then on, the tag of a packet is the code of its sequence number and its bytes under the
  key that was taken last. -/
  sign_eq : ∀ key, keyInForce n (calls.filterMap MacCall.key?) = some key → ∀ seq packet,
    c.sign seq packet = .ok (H.hmac key (bigEndian 4 seq.toNat ++ packet))
  /-- A tag that is made has the stated length. -/
  length_tag : ∀ seq packet tag, c.sign seq packet = .ok tag → tag.length = n
  /-- That tag is accepted and no other one, be it shorter, longer or just different. -/
  verify_eq : ∀ key, keyInForce n (calls.filterMap MacCall.key?) = some key → ∀ seq packet tag,
    c.verify seq packet tag =
      if tag = H.hmac key (bigEndian 4 seq.toNat ++ packet) then .ok ()
      else .error .integrityCheckFailed

/-- What an instance answers is known from the key it has. -/
theorem followsKeys_hmac (H : Digest.HashFunction) (calls : List MacCall) :
    FollowsKeys H H.digestSize calls ((hmac H).fresh.after calls) := by
  have hafter : (hmac H).fresh.after calls =
      ⟨hmac H, keyInForce H.digestSize (calls.filterMap MacCall.key?)⟩ := after_fresh (hmac H) calls
  rw [hafter]
  exact {
    length_eq := ⟨rfl, rfl⟩
    init_eq := MacContext.init_fst _
    sign_keyless := fun h seq packet ↦ by
      rw [h, MacContext.sign_none]
    verify_keyless := fun h seq packet ↦ by
      rw [h]
      exact MacContext.verify_of_sign_eq_error MacContext.sign_none
    sign_eq := fun key h seq packet ↦ by
      rw [h, MacContext.sign_some]
      rfl
    length_tag := fun seq packet tag h ↦ by
      rcases hkey : keyInForce H.digestSize (calls.filterMap MacCall.key?) with - | key
      · rw [hkey, MacContext.sign_none] at h
        cases h
      · rw [hkey, MacContext.sign_some] at h
        cases h
        exact H.length_hmac _ _
    verify_eq := fun key h seq packet ↦ by
      rw [h]
      exact MacContext.verify_of_sign_eq_ok MacContext.sign_some }

/-- **Tags follow the keys, whatever an instance has been called with**, for the code with SHA-256,
whose keys and tags have thirty-two bytes, and for the one with SHA-1, where they have twenty. -/
theorem hmac_followsKeys (calls : List MacCall) :
    FollowsKeys Digest.sha256 32 calls (hmacSha256.fresh.after calls) ∧
      FollowsKeys Digest.sha1 20 calls (hmacSha1.fresh.after calls) :=
  ⟨followsKeys_hmac Digest.sha256 calls, followsKeys_hmac Digest.sha1 calls⟩

end MacAlgorithm

end SecureShell

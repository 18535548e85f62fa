import SecureShell.Algorithm.Error
import SecureShell.Digest.Sha1
import SecureShell.Digest.Sha256

/-!
# Message authentication codes

A packet is authenticated by a tag over its sequence number and its unencrypted bytes. An instance
has no key at first; it takes keys of the right length only, and a key that it does not take
leaves the one before in force.
-/

namespace SecureShell

/-- A keyed tag of a message. -/
structure MacAlgorithm where
  /-- The number of bytes of a key. -/
  keyLength : Nat
  /-- The number of bytes of a tag. -/
  tagLength : Nat
  /-- The tag of a message under a key. -/
  tag : Bytes → Bytes → Bytes

/-- An instance of a message authentication code. -/
structure MacContext where
  /-- What it computes. -/
  algorithm : MacAlgorithm
  /-- The key, once there is one. -/
  key : Option Bytes

namespace MacAlgorithm

/-- A new instance, which has no key yet. -/
def fresh (a : MacAlgorithm) : MacContext := ⟨a, none⟩

/-- HMAC with a hash function, whose digest size is the length of both keys and tags. -/
def hmac (H : Digest.HashFunction) : MacAlgorithm := ⟨H.digestSize, H.digestSize, H.hmac⟩

/-- HMAC with SHA-256. -/
def hmacSha256 : MacAlgorithm := hmac Digest.sha256

/-- HMAC with SHA-1. -/
def hmacSha1 : MacAlgorithm := hmac Digest.sha1

end MacAlgorithm

namespace MacContext

/-- Gives an instance a key. -/
def init (c : MacContext) (key : Bytes) : Except CryptoError Unit × MacContext :=
  if key.length ≠ c.algorithm.keyLength then (.error .invalidKeyLength, c)
  else (.ok (), { c with key := some key })

/-- The tag of a packet: it covers the sequence number and the packet. -/
def sign (c : MacContext) (seq : UInt32) (packet : Bytes) : Except CryptoError Bytes :=
  match c.key with
  | none => .error .notInitialized
  | some key => .ok (c.algorithm.tag key (bigEndian 4 seq.toNat ++ packet))

/-- Checks the tag of a packet. The whole tag has to be given. -/
def verify (c : MacContext) (seq : UInt32) (packet tag : Bytes) : Except CryptoError Unit :=
  match c.sign seq packet with
  | .error e => .error e
  | .ok expected => if tag = expected then .ok () else .error .integrityCheckFailed

end MacContext

end SecureShell

import SecureShell.Curve.Edwards
import SecureShell.Digest.Sha512

/-!
# Ed25519

The published signatures on the Edwards curve, with SHA-512. Signing draws nothing at random: the
commitment is derived from the seed and the message, so a seed has one signature of a message.
Verification is strict: the scalar has to be reduced, neither the public key nor the commitment may
be of small order, and the equation is checked without multiplying it by the cofactor.

The other modules rely on the sizes (`length_publicKey`, `length_sign`). That a signature is
accepted under the public key of its seed is a law of the curve which is not proved here; statements
that need it have it as a hypothesis about the seed and the message.
-/

namespace SecureShell.Curve.Ed25519

/-- The number that the SHA-512 digest of a message spells, modulo the order of the group. -/
def hashScalar (message : Bytes) : Nat :=
  ofLittleEndian (Digest.Sha512.digest message) % Point.order

/-- The secret scalar of a seed: the first half of its digest, as a multiple of eight whose highest
bit is bit 254. -/
def secretScalar (seed : Bytes) : Nat :=
  let n := ofLittleEndian ((Digest.Sha512.digest seed).take 32) % Nat.pow 2 254
  Nat.pow 2 254 + (n - n % 8)

/-- The second half of the digest of a seed, from which commitments are derived. -/
def nonceKey (seed : Bytes) : Bytes := (Digest.Sha512.digest seed).drop 32

/-- The public key of a seed. -/
def publicKey (seed : Bytes) : Bytes :=
  (Point.base.times (secretScalar seed)).toBytes

/-- The signature of a message by a seed. -/
def sign (seed message : Bytes) : Bytes :=
  let r := hashScalar (nonceKey seed ++ message)
  let commitment := (Point.base.times r).toBytes
  let k := hashScalar (commitment ++ publicKey seed ++ message)
  commitment ++ littleEndian 32 ((r + k * secretScalar seed) % Point.order)

/-- Whether a signature is one of the message by the owner of the public key. -/
def verify (publicKey message signature : Bytes) : Bool :=
  let commitment := signature.take 32
  let s := ofLittleEndian (signature.drop 32)
  match Point.ofBytes? publicKey, Point.ofBytes? commitment with
  | some a, some r =>
    let k := hashScalar (commitment ++ publicKey ++ message)
    signature.length == 64 && s < Point.order && !r.isSmallOrder && !a.isSmallOrder &&
      ((Point.base.times s).add (a.neg.times k)).same r
  | _, _ => false

theorem length_publicKey (seed : Bytes) : (publicKey seed).length = 32 := Point.length_toBytes _

theorem length_sign (seed message : Bytes) : (sign seed message).length = 64 := by
  simp [sign, Point.length_toBytes, length_littleEndian]

end SecureShell.Curve.Ed25519

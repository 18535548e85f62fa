import SecureShell.Algorithm.Error
import SecureShell.Curve.X25519
import SecureShell.Digest.Sha256
import SecureShell.Secret
import SecureShell.Text.Quoted

/-!
# Key exchange

An instance of a key exchange method holds a key pair that is used once. Combining its secret half
with the public key of the peer uses the secret up, whether a shared secret comes of it or not; a
public key of the wrong form is refused before that.
-/

namespace SecureShell

/-- A key exchange method. -/
structure KexMethod where
  /-- Whether a public key of the peer has the right form. -/
  accepts : Bytes → Bool
  /-- The shared secret of an own secret and a public key of the right form. -/
  agree : Bytes → Bytes → Except CryptoError Secret
  /-- The hash function that goes with the method. -/
  hash : Bytes → Bytes

/-- An instance of a key exchange method. -/
structure KeyExchange where
  /-- What it computes. -/
  method : KexMethod
  /-- The own public key, for the peer. -/
  publicKey : Bytes
  /-- The own secret, as long as it has not been used. -/
  secret : Option Bytes

namespace KeyExchange

/-- Combines the own secret with the public key of the peer. -/
def sharedSecret (x : KeyExchange) (peer : Bytes) : Except CryptoError Secret × KeyExchange :=
  if x.method.accepts peer then
    match x.secret with
    | none => (.error .notInitialized, x)
    | some s => (x.method.agree s peer, { x with secret := none })
  else (.error .invalidPublicKey, x)

/-- The digest of the exchange's data. -/
def hash (x : KeyExchange) (data : Bytes) : Bytes := x.method.hash data

end KeyExchange

/-! ### The method over Curve25519 -/

namespace Curve25519Sha256

/-- The shared secret, unless it is all zero. -/
def agree (secret peer : Bytes) : Except CryptoError Secret :=
  let shared := Curve.X25519.multiply secret peer
  if shared.all (· == 0) then .error .invalidPublicKey else .ok ⟨shared⟩

/-- The method: points of 32 bytes, and SHA-256 as hash function. -/
def method : KexMethod where
  accepts peer := peer.length == 32
  agree := agree
  hash := Digest.Sha256.digest

/-- The instance of a secret. -/
def ofSecret (secret : Bytes) : KeyExchange :=
  ⟨method, Curve.X25519.publicKey secret, some secret⟩

/-- A new instance, with a random secret. -/
def fresh {σ : Type} [Entropy σ] (s : σ) : KeyExchange × σ :=
  let (secret, s) := Entropy.draw 32 s
  (ofSecret secret, s)

/-- The numbers of a byte string between brackets. -/
def numbers (b : Bytes) : String :=
  "[" ++ ", ".intercalate (b.map fun x ↦ toString x.toNat) ++ "]"

/-- What is shown of an instance: its public key, and of the secret only whether it is there. -/
def description (x : KeyExchange) : String :=
  Text.labelled "Curve25519Sha256"
    [("public", numbers x.publicKey),
      ("secret", if x.secret.isSome then "Some(\"..\")" else "None")]

end Curve25519Sha256

end SecureShell

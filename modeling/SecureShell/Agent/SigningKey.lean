import SecureShell.Algorithm.Error
import SecureShell.Key.Ed25519

/-!
# Signing keys

Private keys as the agent holds them. A key may change with every signature, whether that comes
about or not; the built-in Ed25519 keys do not.
-/

namespace SecureShell

/-- Types of private keys. -/
class SigningKey (κ : Type) where
  /-- The public half. -/
  publicKey : κ → Identity
  /-- A signature of data, and the key after the attempt. -/
  sign : κ → Bytes → Except SignatureError Signature × κ

/-- One call of a private key for a signature. -/
structure SigningCall (κ : Type) where
  /-- The public key that the private key is stored under. -/
  publicKey : Identity
  /-- The private key, as it was when it was called. -/
  privateKey : κ
  /-- The data that it was called to sign. -/
  data : Bytes

/-- An Ed25519 private key. -/
structure Ed25519SigningKey where
  /-- The bytes that the key pair is derived from. -/
  seed : Bytes
  /-- There are thirty-two of them. -/
  length_seed : seed.length = 32

namespace Ed25519SigningKey

/-- The key of a seed, which has to have the right length. -/
def ofSeed (seed : Bytes) : Except CryptoError Ed25519SigningKey :=
  if h : seed.length = 32 then .ok ⟨seed, h⟩ else .error .invalidKeyLength

/-- A new key of a random seed. -/
def generate {σ : Type} [Entropy σ] (s : σ) : Ed25519SigningKey × σ :=
  (⟨(Entropy.draw 32 s).1, Entropy.length_draw 32 s⟩, (Entropy.draw 32 s).2)

/-- The public half of a key. -/
def publicKey (k : Ed25519SigningKey) : Identity := (Ed25519PublicKey.ofSeed k.seed).identity

/-- The signature of data. -/
def sign (k : Ed25519SigningKey) (data : Bytes) : Signature :=
  ⟨Ed25519PublicKey.name, Curve.Ed25519.sign k.seed data⟩

instance : SigningKey Ed25519SigningKey where
  publicKey := publicKey
  sign k data := (.ok (k.sign data), k)

/-- What is shown of a key: the fingerprint of its public half. -/
def description (k : Ed25519SigningKey) : String :=
  "Ed25519SigningKey(" ++ k.publicKey.fingerprint ++ ")"

end Ed25519SigningKey

end SecureShell

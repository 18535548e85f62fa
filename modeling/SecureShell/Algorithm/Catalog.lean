import SecureShell.Algorithm.Discovery
import SecureShell.Key.Ed25519
import SecureShell.Key.Format
import SecureShell.KeyExchange
import SecureShell.Packet.ChaCha20Poly1305
import SecureShell.Packet.Mac

/-!
# Built-in algorithms and catalogs

The registries that hold the built-in algorithms only, and catalogs: the implementations that
extensions may refer to, by category. An application adds its own to those that are built in.
-/

namespace SecureShell

variable {σ : Type}

/-! ### Factories of the built-in algorithms -/

/-- Constructs a key exchange with a random secret. -/
def curve25519Factory [Entropy σ] : Factory σ KeyExchange := fun s ↦
  let (x, s) := Curve25519Sha256.fresh s
  (.ok x, s)

/-- Constructs the check of Ed25519 signatures. -/
def ed25519Factory : Factory σ Verifier := .ofValue Ed25519PublicKey.verifier

/-- Constructs a packet cipher without a key. -/
def chaCha20Poly1305Factory : Factory σ CipherContext := .ofValue ChaCha20Poly1305.cipher.fresh

/-- Constructs a message authentication code without a key. -/
def hmacSha256Factory : Factory σ MacContext := .ofValue MacAlgorithm.hmacSha256.fresh

/-- Constructs a message authentication code without a key. -/
def hmacSha1Factory : Factory σ MacContext := .ofValue MacAlgorithm.hmacSha1.fresh

/-- Constructs the format of key lines. -/
def keyLineFactory : Factory σ KeyFormat := .ofValue KeyLine.format

/-! ### Built-in registries -/

namespace Registry

/-- A registry of the given algorithms, the first of which is the default. -/
def ofList {α : Type} (category : Category) (l : List (String × Option (Factory σ α))) :
    Registry σ α :=
  l.foldl (fun r p ↦ (r.register p.1 p.2).2) (empty category)

/-- The built-in key exchange methods. -/
def builtinKex [Entropy σ] : Registry σ KeyExchange :=
  ofList .kex [("curve25519-sha256@libssh.org", some curve25519Factory),
    ("curve25519-sha256", some curve25519Factory)]

/-- The built-in public key algorithms. -/
def builtinPublicKey : Registry σ Verifier :=
  ofList .publicKey [("ssh-ed25519", some ed25519Factory)]

/-- The built-in encryption algorithms. -/
def builtinCipher : Registry σ CipherContext :=
  ofList .cipher [("chacha20-poly1305@openssh.com", some chaCha20Poly1305Factory)]

/-- The built-in message authentication codes. -/
def builtinMac : Registry σ MacContext :=
  ofList .mac [("hmac-sha2-256", some hmacSha256Factory), ("hmac-sha1", some hmacSha1Factory)]

/-- The built-in compression algorithms: none is compression that does nothing. -/
def builtinCompression : Registry σ Compression :=
  ofList .compression [("none", none)]

/-- The built-in public key formats. -/
def builtinKeyFormat : Registry σ KeyFormat :=
  ofList .publicKey [("openssh", some keyLineFactory)]

end Registry

/-! ### Catalogs -/

/-- The implementations that extensions may refer to. -/
structure Catalog (σ : Type) where
  /-- Key exchange methods. -/
  kex : Table σ KeyExchange
  /-- Public key algorithms. -/
  publicKey : Table σ Verifier
  /-- Encryption algorithms. -/
  cipher : Table σ CipherContext
  /-- Message authentication codes. -/
  mac : Table σ MacContext
  /-- Compression algorithms. -/
  compression : Table σ Compression
  /-- Public key formats. -/
  keyFormat : Table σ KeyFormat

namespace Catalog

/-- A catalog without implementations. -/
def empty : Catalog σ := ⟨[], [], [], [], [], []⟩

/-- A catalog of the built-in implementations. -/
def builtin [Entropy σ] : Catalog σ where
  kex := [("Curve25519Sha256", curve25519Factory)]
  publicKey := [("SshEd25519", ed25519Factory)]
  cipher := [("ChaCha20Poly1305", chaCha20Poly1305Factory)]
  mac := [("HmacSha256", hmacSha256Factory), ("HmacSha1", hmacSha1Factory)]
  compression := []
  keyFormat := [("OpenSshPublicKeyFormat", keyLineFactory)]

/-- The identifiers of a table, sorted. -/
def identifiers {α : Type} (t : Table σ α) : List String :=
  (Roster.names t).mergeSort fun a b ↦ a ≤ b

/-- What is shown of a catalog. -/
def description (c : Catalog σ) : String :=
  let ids {α : Type} (t : Table σ α) := Text.quotedList (identifiers t)
  Text.labelled "Catalog"
    [("kex", ids c.kex), ("public_key", ids c.publicKey), ("encryption", ids c.cipher),
      ("mac", ids c.mac), ("compression", ids c.compression),
      ("public_key_format", ids c.keyFormat)]

end Catalog

end SecureShell

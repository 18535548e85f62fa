import SecureShell.Curve.Ed25519
import SecureShell.Key.Identity
import SecureShell.Key.Signature

/-!
# Ed25519 keys and signatures

The wire representation of an Ed25519 public key, and the check of a signature under an identity
that is one. It is what a host key algorithm consists of (`Verifier`).
-/

namespace SecureShell

open Wire

/-- An Ed25519 public key. -/
structure Ed25519PublicKey where
  /-- The encoded point. -/
  bytes : Bytes
  /-- An encoded point has 32 bytes. -/
  length_bytes : bytes.length = 32
  deriving DecidableEq

namespace Ed25519PublicKey

/-- The name of the algorithm. -/
def name : String := "ssh-ed25519"

instance : Writable Ed25519PublicKey :=
  ⟨fun k ↦ Emission.framedText name ++ Emission.framed k.bytes⟩

instance : Readable Ed25519PublicKey :=
  ⟨do
    Reader.expectText name
    let b ← Reader.framed
    if h : b.length = 32 then return ⟨b, h⟩ else Reader.fail⟩

/-- The public key of a seed. -/
def ofSeed (seed : Bytes) : Ed25519PublicKey :=
  ⟨Curve.Ed25519.publicKey seed, Curve.Ed25519.length_publicKey seed⟩

end Ed25519PublicKey

/-- The Ed25519 public key that an identity is, if it is one. -/
def Identity.asEd25519? (k : Identity) : Option Ed25519PublicKey :=
  (decode k.blob).toOption

/-- The identity of an Ed25519 public key. -/
def Ed25519PublicKey.identity (k : Ed25519PublicKey) : Identity :=
  match encode k with
  | .ok blob => ⟨blob⟩
  | .error _ => ⟨[]⟩

/-- Checks an Ed25519 signature of a message under an identity. The names are looked at before the
key, and the key before the signature. -/
def Ed25519PublicKey.verify (k : Identity) (message : Bytes) (s : Signature) :
    Except SignatureError Unit :=
  if s.algorithm ≠ name then .error .unsupportedSignature
  else
    match k.asEd25519? with
    | none => .error .unsupportedIdentity
    | some key =>
      if Curve.Ed25519.verify key.bytes message s.data then .ok () else .error .invalidSignature

/-- A public key algorithm of hosts. -/
structure Verifier where
  /-- Checks a signature of data under an identity. -/
  verify : Identity → Bytes → Signature → Except SignatureError Unit

/-- Ed25519 signatures under Ed25519 identities. -/
def Ed25519PublicKey.verifier : Verifier := ⟨verify⟩

end SecureShell

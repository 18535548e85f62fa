import SecureShell.Wire.Codec

/-!
# Signatures

A signature with the name of its algorithm. On the wire the two stand in a frame of their own,
which they have to fill.
-/

namespace SecureShell

/-- A public key signature. -/
structure Signature where
  /-- The name of the signature algorithm. -/
  algorithm : String
  /-- The signature itself, in the form that the algorithm defines. -/
  data : Bytes
  deriving DecidableEq, Repr

/-- Why a signature was not accepted. -/
inductive SignatureError where
  /-- The signature names another algorithm. -/
  | unsupportedSignature
  /-- The public key is not one of the algorithm. -/
  | unsupportedIdentity
  /-- The signature is malformed or does not belong to the message and the key. -/
  | invalidSignature
  deriving DecidableEq, Repr

/-- The text of a signature error. -/
def SignatureError.message : SignatureError → String
  | .unsupportedSignature => "Unsupported signature algorithm"
  | .unsupportedIdentity => "Unsupported identity"
  | .invalidSignature => "Invalid signature"

namespace Signature

open Wire

instance : Writable Signature :=
  ⟨fun s ↦ Emission.length (8 + (utf8 s.algorithm).length + s.data.length) ++
    Emission.framedText s.algorithm ++ Emission.framed s.data⟩

instance : Readable Signature :=
  ⟨Reader.framedBy do
    let algorithm ← Reader.framedText
    let data ← Reader.framed
    return ⟨algorithm, data⟩⟩

end Signature

end SecureShell

import SecureShell.Bytes.Base64
import SecureShell.Digest.Sha256
import SecureShell.Wire.Codec

/-!
# Identities

A user or host public key in its wire representation. Two identities are the same if their bytes
are, so they serve as look-up keys whatever the algorithm.
-/

namespace SecureShell

/-- A public key as it travels. -/
structure Identity where
  /-- The wire representation. -/
  blob : Bytes
  deriving DecidableEq, Repr

namespace Identity

/-- The name of the algorithm that the key starts with, or the empty text if it starts with no
name. -/
def algorithm (k : Identity) : String :=
  (Wire.Reader.framedText.run k.blob).1.getD ""

/-- The fingerprint of a key: the digest of its bytes. -/
def fingerprint (k : Identity) : String :=
  "SHA256:" ++ Base64.encodeUnpadded (Digest.Sha256.digest k.blob)

instance : Wire.Writable Identity := ⟨fun k ↦ Wire.Emission.framed k.blob⟩

instance : Wire.Readable Identity := ⟨do return ⟨← Wire.Reader.framed⟩⟩

end Identity

end SecureShell

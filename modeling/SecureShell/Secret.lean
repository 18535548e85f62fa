import SecureShell.Wire.Codec

/-!
# Secrets

Passwords and shared secrets. They are compared by collecting the differences of all bytes, so
that the comparison does not stop at the first one, and they are never shown.
-/

namespace SecureShell

/-- Bytes that are not to be shown. -/
structure Secret where
  /-- The bytes themselves. -/
  bytes : Bytes

namespace Secret

/-- The secret of a password. -/
def ofText (s : String) : Secret := ⟨utf8 s⟩

/-- Whether the secret consists of the given bytes. Only a difference in length ends the
comparison early. -/
def agrees (s : Secret) (x : Bytes) : Bool :=
  if s.bytes.length ≠ x.length then false else difference s.bytes x == 0

instance : BEq Secret := ⟨fun a b ↦ a.agrees b.bytes⟩

instance : Wire.Writable Secret := ⟨fun s ↦ Wire.Emission.framed s.bytes⟩

/-- What is shown of a secret. -/
def description (_ : Secret) : String := "Secret(..)"

end Secret

end SecureShell

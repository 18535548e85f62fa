import SecureShell.Bytes.Hex
import SecureShell.Wire.Codec

/-!
# Cookies

The sixteen random bytes at the start of every negotiation message.
-/

namespace SecureShell

open Wire

/-- Sixteen bytes that nobody can predict. -/
structure Cookie where
  /-- The bytes. -/
  bytes : Bytes
  /-- There are sixteen of them. -/
  length_bytes : bytes.length = 16
  deriving DecidableEq

namespace Cookie

instance : Writable Cookie := ⟨fun c ↦ Emission.chunk c.bytes⟩

/-- The next sixteen bytes, without a length. -/
def read : Reader Cookie := do
  let b ← Reader.bytes 16
  if h : b.length = 16 then return ⟨b, h⟩ else Reader.fail

instance : Readable Cookie := ⟨read⟩

/-- How a cookie is shown. -/
def description (c : Cookie) : String := "KexCookie(" ++ hex c.bytes ++ ")"

end Cookie

end SecureShell

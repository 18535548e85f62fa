import SecureShell.Algorithm.Error
import SecureShell.Bytes

/-!
# Packet ciphers and compression

A packet cipher works in place on a buffer that holds a whole packet: the length field, the
payload, and room for the authentication tag at the end. Its operations return the buffer as they
leave it, along with what came of them. An instance has no key at first; a key that it does not
take leaves the one before in force.

Payloads are compressed before they are encrypted. What becomes of one may depend on all payloads
before it in the same direction, so both operations are given those first.
-/

namespace SecureShell

/-- An encryption algorithm for packets, as functions of a key of the right length, the sequence
number of the packet and the buffer. -/
structure PacketCipher where
  /-- The number of bytes of a key. -/
  keyLength : Nat
  /-- The size to whose multiples packets are padded. -/
  blockLength : Nat
  /-- The number of bytes of the tag at the end of the buffer. -/
  tagLength : Nat
  /-- Encrypts a buffer and puts the tag at its end. -/
  encrypt : Bytes → UInt64 → Bytes → Except CryptoError Unit × Bytes
  /-- Checks the tag of a buffer, decrypts it, and tells how many bytes have been decrypted. -/
  decrypt : Bytes → UInt64 → Bytes → Except CryptoError Nat × Bytes
  /-- The size of a packet, tag included, whose length field is the given four bytes. -/
  packetLength : Bytes → UInt64 → Bytes → Except CryptoError Nat

/-- An instance of a packet cipher. -/
structure CipherContext where
  /-- What it computes. -/
  cipher : PacketCipher
  /-- The key, once there is one. -/
  key : Option Bytes

/-- A new instance, which has no key yet. -/
def PacketCipher.fresh (c : PacketCipher) : CipherContext := ⟨c, none⟩

namespace CipherContext

/-- Gives an instance a key. -/
def init (c : CipherContext) (key : Bytes) : Except CryptoError Unit × CipherContext :=
  if key.length ≠ c.cipher.keyLength then (.error .invalidKeyLength, c)
  else (.ok (), { c with key := some key })

/-- Encrypts a buffer. -/
def encrypt (c : CipherContext) (seq : UInt64) (buffer : Bytes) :
    Except CryptoError Unit × Bytes :=
  match c.key with
  | none => (.error .notInitialized, buffer)
  | some key => c.cipher.encrypt key seq buffer

/-- Checks and decrypts a buffer. -/
def decrypt (c : CipherContext) (seq : UInt64) (buffer : Bytes) :
    Except CryptoError Nat × Bytes :=
  match c.key with
  | none => (.error .notInitialized, buffer)
  | some key => c.cipher.decrypt key seq buffer

/-- The size of the packet that a length field announces. -/
def packetLength (c : CipherContext) (seq : UInt64) (field : Bytes) : Except CryptoError Nat :=
  match c.key with
  | none => .error .notInitialized
  | some key => c.cipher.packetLength key seq field

end CipherContext

/-- A compression algorithm. -/
structure Compression where
  /-- A compressed payload, after those that were compressed before it. -/
  compress : List Bytes → Bytes → Except CryptoError Bytes
  /-- A decompressed payload, after those that were decompressed before it. -/
  decompress : List Bytes → Bytes → Except CryptoError Bytes

end SecureShell

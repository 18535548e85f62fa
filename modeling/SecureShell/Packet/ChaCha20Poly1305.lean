import SecureShell.Cipher.ChaCha20
import SecureShell.Cipher.Poly1305
import SecureShell.Packet.Cipher
import SecureShell.Text.Quoted

/-!
# ChaCha20 and Poly1305 for packets

The length field and the payload are encrypted under keys of their own, so that a receiver can
read the length of a packet before the rest has come. The tag covers both in their encrypted form,
and its one-time key is the start of the payload's keystream, whose next block encrypts the
payload. Nothing is decrypted unless the tag is right.

Sizes are numbers without a bound. That is right where a size has 64 bits: an announced size is at
most `2 ^ 32 + 19`, which a narrower one may not hold. No buffer is taken to use up the block
counter of its keystream, see `Cipher.ChaCha20`.
-/

namespace SecureShell.ChaCha20Poly1305

open Cipher

/-- The number of bytes of the length field. -/
def fieldLength : Nat := 4

/-- The number of bytes of the tag. -/
def tagLength : Nat := 16

/-- The size that packets may have, tag included. -/
def maxPacketLength : Nat := 35000

/-- The half of the key that the payload is encrypted with. -/
def payloadKey (key : Bytes) : Bytes := key.take 32

/-- The half of the key that the length field is encrypted with. -/
def fieldKey (key : Bytes) : Bytes := key.drop 32

/-- The nonce of a packet: its sequence number. -/
def nonce (seq : UInt64) : Bytes := bigEndian 8 seq.toNat

/-- The keystream that the length field is combined with. -/
def fieldStream (key : Bytes) (seq : UInt64) : ChaCha20.Keystream :=
  .start (fieldKey key) (nonce seq)

/-- The one-time key of the tag, and the keystream as it is left for the payload. The one-time key
is the first half of a block. The second half is passed over by applying the keystream once more, so
that the payload starts with a block of its own. -/
def payloadStream (key : Bytes) (seq : UInt64) : Bytes × ChaCha20.Keystream :=
  let (tagKey, stream) :=
    (ChaCha20.Keystream.start (payloadKey key) (nonce seq)).apply (List.replicate 32 0)
  let (_, stream) := stream.apply tagKey
  (tagKey, stream)

/-- The length field of a buffer. -/
def field (buffer : Bytes) : Bytes := buffer.take fieldLength

/-- The bytes of a buffer between the length field and the tag. -/
def payload (buffer : Bytes) : Bytes :=
  (buffer.take (buffer.length - tagLength)).drop fieldLength

/-- The last bytes of a buffer, which are for the tag. -/
def tagOf (buffer : Bytes) : Bytes := buffer.drop (buffer.length - tagLength)

/-- Encrypts a buffer that has room for the length field and the tag. -/
def encrypt (key : Bytes) (seq : UInt64) (buffer : Bytes) : Except CryptoError Unit × Bytes :=
  if buffer.length < fieldLength + tagLength then (.error .invalidLength, buffer)
  else
    let (sealedField, _) := (fieldStream key seq).apply (field buffer)
    let (tagKey, stream) := payloadStream key seq
    let (sealedPayload, _) := stream.apply (payload buffer)
    let sealed := sealedField ++ sealedPayload
    (.ok (), sealed ++ Poly1305.tag tagKey sealed)

/-- Decrypts a buffer that holds a payload and the right tag. The length field and the tag stay as
they are. -/
def decrypt (key : Bytes) (seq : UInt64) (buffer : Bytes) : Except CryptoError Nat × Bytes :=
  if buffer.length ≤ fieldLength + tagLength then (.error .invalidLength, buffer)
  else
    let (tagKey, stream) := payloadStream key seq
    let expected := Poly1305.tag tagKey (buffer.take (buffer.length - tagLength))
    if difference expected (tagOf buffer) ≠ 0 then (.error .integrityCheckFailed, buffer)
    else
      let (opened, _) := stream.apply (payload buffer)
      (.ok (buffer.length - tagLength - fieldLength), field buffer ++ opened ++ tagOf buffer)

/-- The size of the packet that an encrypted length field announces. It is computed without
overflow, which takes sizes of more than 32 bits. -/
def packetLength (key : Bytes) (seq : UInt64) (field : Bytes) : Except CryptoError Nat :=
  let (opened, _) := (fieldStream key seq).apply field
  let n := fieldLength + ofBigEndian opened + tagLength
  if n > maxPacketLength then .error .invalidLength else .ok n

/-- The packet cipher. Its keys are the payload's key followed by the length field's. -/
def cipher : PacketCipher := ⟨64, 8, tagLength, encrypt, decrypt, packetLength⟩

/-- What is shown of an instance. -/
def description (c : CipherContext) : String :=
  Text.labelled "Chacha20Poly1305" [("initialized", Text.truth c.key.isSome)]

end SecureShell.ChaCha20Poly1305

import SecureShell.Bytes

/-!
# Hash functions

SHA-1, SHA-256 and SHA-512 are the published functions. All of them cut a message into blocks of
equal size, after adding a one bit, as few zero bits as are needed and the length of the message in
bits. A message is taken as a whole here; handing it to a hash function in pieces gives the digest
of the pieces put together. Keyed hashing is HMAC in the published form: a key that is longer than
a block is hashed first, and the digest of the key and the message is hashed once more with the
key.

That digests are hard to predict is no part of this. What the other modules rely on are the sizes:
`HashFunction.length_digest` and `HashFunction.length_hmac`.
-/

namespace SecureShell.Digest

/-- The message with its padding: its end is a length of `lengthWidth` bytes, and its size a
multiple of `blockSize`. -/
def pad (blockSize lengthWidth : Nat) (message : Bytes) : Bytes :=
  let used := (message.length + 1 + lengthWidth) % blockSize
  message ++ 0x80 :: List.replicate ((blockSize - used) % blockSize) 0 ++
    bigEndian lengthWidth (8 * message.length)

/-- A hash function with the sizes that keyed hashing needs to know. -/
structure HashFunction where
  /-- The number of bytes of a block. -/
  blockSize : Nat
  /-- The number of bytes of a digest. -/
  digestSize : Nat
  /-- The digest of a message. -/
  digest : Bytes → Bytes
  /-- Digests have the stated size. -/
  length_digest : ∀ message, (digest message).length = digestSize

namespace HashFunction

variable (H : HashFunction)

/-- The key brought to the size of a block: longer keys are hashed, shorter ones end in zeros. -/
def blockKey (key : Bytes) : Bytes :=
  let short := if key.length ≤ H.blockSize then key else H.digest key
  short ++ List.replicate (H.blockSize - short.length) 0

/-- The authentication code of a message under a key. -/
def hmac (key message : Bytes) : Bytes :=
  let inner := (H.blockKey key).map (fun x ↦ x ^^^ 0x36)
  let outer := (H.blockKey key).map (fun x ↦ x ^^^ 0x5c)
  H.digest (outer ++ H.digest (inner ++ message))

theorem length_hmac (key message : Bytes) : (H.hmac key message).length = H.digestSize :=
  H.length_digest _

end HashFunction

end SecureShell.Digest

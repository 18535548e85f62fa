import SecureShell.Curve.X25519
import SecureShell.Proofs.Curve.Field
import SecureShell.Proofs.Curve.Montgomery
import Mathlib.NumberTheory.LegendreSymbol.Basic

/-!
# X25519 multiplies points

The ladder of X25519 carries two points that differ by the one that is multiplied, each as a
fraction. A digit of the multiplier doubles one of them and adds the other
(`Ladder.Holds.step`), so in the end the first one is the multiple, and the result is its
u-coordinate (`residue_multiply`). Since multiples of multiples do not depend on the order, two
parties get the same from each other's public keys (`multiply_comm`).

The formulas do not apply to a point with u-coordinate zero. The neutral point and the point of
order two are the only ones, and multipliers are even, so their multiples are neutral; and the
ladder ends with a denominator of zero then (`Ladder.Stuck.step`).
-/

namespace SecureShell.Curve.X25519

open Montgomery

/-- The points that are multiplied. -/
abbrev Group : Type := (curve (486662 : ZMod prime)).Point

theorem natCast_ne_zero {n : ℕ} (h : n % prime ≠ 0) : (n : ZMod prime) ≠ 0 := by
  rwa [ne_eq, ZMod.natCast_eq_zero_iff, Nat.dvd_iff_mod_eq_zero]

/-- The formulas hold for this curve. -/
theorem admissible : Admissible (486662 : ZMod prime) where
  two_ne_zero := by
    have h : ((2 : ℕ) : ZMod prime) ≠ 0 := natCast_ne_zero (by decide)
    rwa [Nat.cast_ofNat] at h
  not_isSquare := by
    have hcast : (486662 : ZMod prime) ^ 2 - 4 = ((486662 ^ 2 - 4 : ℕ) : ZMod prime) := by norm_num
    rw [hcast, ZMod.euler_criterion prime (natCast_ne_zero (by decide)), pow_eq_one_iff]
    decide +kernel

/-! ### The ladder -/

namespace Ladder

variable {l : Ladder} {u : Element} {P Q : Group}

/-- A ladder that carries two points. -/
structure Holds (l : Ladder) (P Q : Group) : Prop where
  /-- The first fraction is the first point. -/
  first : Spells l.x₂.residue l.z₂.residue P
  /-- The second fraction is the second point. -/
  second : Spells l.x₃.residue l.z₃.residue Q

theorem Holds.swap (h : l.Holds P Q) : l.swap.Holds Q P := ⟨h.second, h.first⟩

/-- What is computed for two points. -/
theorem residue_advance (u : Element) (l : Ladder) :
    (advance u l).x₂.residue = (l.x₂.residue ^ 2 - l.z₂.residue ^ 2) ^ 2 ∧
    (advance u l).z₂.residue = 4 * l.x₂.residue * l.z₂.residue *
      (l.x₂.residue ^ 2 + 486662 * l.x₂.residue * l.z₂.residue + l.z₂.residue ^ 2) ∧
    (advance u l).x₃.residue =
      4 * (l.x₂.residue * l.x₃.residue - l.z₂.residue * l.z₃.residue) ^ 2 ∧
    (advance u l).z₃.residue =
      u.residue * (4 * (l.x₂.residue * l.z₃.residue - l.z₂.residue * l.x₃.residue) ^ 2) := by
  simp only [advance, Element.residue_add, Element.residue_mul, Element.residue_sub,
    Element.residue_ofNat]
  refine ⟨by ring, ?_, by ring, by ring⟩
  push_cast
  ring

/-- **The first point is doubled and added to the second.** -/
theorem Holds.advance (h : l.Holds P Q) (hdifference : Spells u.residue 1 (P - Q))
    (hu : u.residue ≠ 0) : (advance u l).Holds (P + P) (P + Q) := by
  obtain ⟨hx₂, hz₂, hx₃, hz₃⟩ := residue_advance u l
  refine ⟨?_, ?_⟩
  · rw [hx₂, hz₂]
    exact h.first.double admissible
  · rw [hx₃, hz₃]
    exact h.first.add admissible h.second hdifference hu

/-- **One digit.** -/
theorem Holds.step {m : ℕ} (h : l.Holds (m • P) ((m + 1) • P)) (hP : Spells u.residue 1 P)
    (hu : u.residue ≠ 0) (bit : Bool) :
    (step u l bit).Holds ((2 * m + bit.toNat) • P) ((2 * m + bit.toNat + 1) • P) := by
  rcases bit with - | -
  · have hdifference : Spells u.residue 1 (m • P - (m + 1) • P) := by
      rwa [succ_nsmul, sub_add_cancel_left, spells_neg]
    have hnext := h.advance hdifference hu
    rw [← add_nsmul, ← add_nsmul, ← two_mul, ← add_assoc, ← two_mul] at hnext
    exact hnext
  · have hdifference : Spells u.residue 1 ((m + 1) • P - m • P) := by
      rwa [succ_nsmul, add_sub_cancel_left]
    have hnext := (h.swap.advance hdifference hu).swap
    rw [← add_nsmul, ← add_nsmul, ← two_mul, mul_add_one, add_right_comm, ← two_mul] at hnext
    exact hnext

/-- A ladder that gives zero, as it does for the u-coordinate zero. -/
structure Stuck (l : Ladder) : Prop where
  /-- The first fraction has denominator zero. -/
  first : l.z₂.residue = 0
  /-- One of the numerators is zero. -/
  numerators : l.x₂.residue * l.x₃.residue = 0

/-- It remains one. -/
theorem Stuck.step (h : l.Stuck) (hu : u.residue = 0) (bit : Bool) : (step u l bit).Stuck := by
  rcases bit with - | -
  · obtain ⟨-, hz₂, hx₃, -⟩ := residue_advance u l
    refine ⟨?_, ?_⟩
    · show (advance u l).z₂.residue = 0
      rw [hz₂, h.first]
      ring
    · show _ * (advance u l).x₃.residue = 0
      rw [hx₃, h.first, h.numerators]
      ring
  · obtain ⟨-, -, hx₃, hz₃⟩ := residue_advance u l.swap
    refine ⟨?_, ?_⟩
    · show (advance u l.swap).z₃.residue = 0
      rw [hz₃, hu, zero_mul]
    · show (advance u l.swap).x₃.residue * _ = 0
      have hfirst : l.swap.z₃.residue = 0 := h.first
      have hnumerators : l.swap.x₂.residue * l.swap.x₃.residue = 0 := by
        rw [mul_comm]
        exact h.numerators
      rw [hx₃, hfirst, hnumerators]
      ring

/-- The ladder after all digits of a multiplier. -/
def run (u : Element) (n : ℕ) : Ladder := (bitsOf n).foldl (Ladder.step u) ⟨1, 0, u, 1⟩

/-- **In the end the ladder carries the multiple.** -/
theorem holds_run (hP : Spells u.residue 1 P) (hu : u.residue ≠ 0) (n : ℕ) :
    (run u n).Holds (n • P) ((n + 1) • P) := by
  refine foldl_bitsOf (R := fun (l : Ladder) m ↦ l.Holds (m • P) ((m + 1) • P)) ⟨?_, ?_⟩
    (fun l m bit h ↦ h.step hP hu bit) n
  · rw [zero_nsmul, Element.residue_one, Element.residue_zero]
    exact ⟨one_ne_zero, rfl⟩
  · rwa [zero_add, one_nsmul, Element.residue_one]

theorem stuck_run (hu : u.residue = 0) (n : ℕ) : (run u n).Stuck := by
  refine foldl_bitsOf (R := fun (l : Ladder) _ ↦ l.Stuck) ⟨Element.residue_zero, ?_⟩
    (fun l m bit h ↦ h.step hu bit) n
  rw [hu, mul_zero]

end Ladder

/-! ### Multiplication -/

theorem even_multiplier (secret : Bytes) : 2 ∣ multiplier secret := by
  have htop : 8 ∣ Nat.pow 2 254 := by decide
  rw [multiplier]
  omega

/-- **X25519 multiplies points**: it gives the u-coordinate of the multiple. -/
theorem residue_multiply (secret u : Bytes) {P : Group}
    (hP : (Element.ofBytes u).residue = coordinate P) :
    (Element.ofBytes (multiply secret u)).residue = coordinate (multiplier secret • P) := by
  have hquotient : (Element.ofBytes (multiply secret u)).residue =
      (Ladder.run (Element.ofBytes u) (multiplier secret)).x₂.residue /
        (Ladder.run (Element.ofBytes u) (multiplier secret)).z₂.residue := by
    rw [multiply, Element.ofBytes_toBytes, Element.residue_mul, Element.residue_inverse,
      div_eq_mul_inv]
    rfl
  rw [hquotient]
  by_cases hu : (Element.ofBytes u).residue = 0
  -- The multiple of such a point is neutral, since the multiplier is even.
  · obtain ⟨k, hk⟩ := even_multiplier secret
    have hmultiple : multiplier secret • P = 0 := by
      rw [hk, mul_nsmul, two_nsmul, add_self_of_coordinate_eq_zero (hP.symm.trans hu), nsmul_zero]
    rw [hmultiple, (Ladder.stuck_run hu _).first, div_zero]
    rfl
  · have hne : P ≠ 0 := by
      rintro rfl
      exact hu hP
    have hspells : Spells (Element.ofBytes u).residue 1 P := by
      rw [hP]
      exact spells_coordinate hne
    exact (Ladder.holds_run hspells hu _).first.div_eq

/-- The point that public keys are multiples of. -/
theorem exists_base :
    ∃ B : Group, (Element.ofBytes (littleEndian 32 9)).residue = coordinate B := by
  have hvalue : Element.ofBytes (littleEndian 32 9) = Element.ofNat 9 := by decide
  let v : ℕ := 14781619447589544791020593568409986887264606134616475288964881837755586237401
  have hv : (v : ZMod prime) ≠ 0 := natCast_ne_zero (by decide)
  have hcurve : (curve (486662 : ZMod prime)).Equation ((9 : ℕ) : ZMod prime) v := by
    have hvalues : (v : ZMod prime) ^ 2 = ((9 ^ 3 + 486662 * 9 ^ 2 + 9 : ℕ) : ZMod prime) := by
      rw [← Nat.cast_pow, ZMod.natCast_eq_natCast_iff']
      decide +kernel
    rw [Montgomery.equation_iff, hvalues]
    push_cast
    rfl
  refine ⟨.some _ _ (admissible.nonsingular hcurve hv), ?_⟩
  rw [hvalue, Element.residue_ofNat]
  rfl

/-- **Both parties get the same**, whatever their secrets are. -/
theorem multiply_comm (a b : Bytes) : multiply a (publicKey b) = multiply b (publicKey a) := by
  obtain ⟨B, hB⟩ := exists_base
  have hbytes : ∀ secret u, multiply secret u =
      (Element.ofBytes (multiply secret u)).toBytes := by
    intro secret u
    rw [multiply, Element.ofBytes_toBytes]
  have hpublic : ∀ secret, (Element.ofBytes (publicKey secret)).residue =
      coordinate (multiplier secret • B) := fun secret ↦ residue_multiply secret _ hB
  have hmultiples : Element.ofBytes (multiply a (publicKey b)) =
      Element.ofBytes (multiply b (publicKey a)) := by
    rw [← Element.residue_inj, residue_multiply a _ (hpublic b),
      residue_multiply b _ (hpublic a), ← mul_nsmul, ← mul_nsmul, Nat.mul_comm]
  rw [hbytes a, hbytes b, hmultiples]

end SecureShell.Curve.X25519

import SecureShell.Proofs.Bytes
import SecureShell.Proofs.Curve.Prime
import Mathlib.FieldTheory.Finite.Basic

/-!
# Elements as residues

The elements of the field are numbers with arithmetic of their own. What they stand for are the
residues modulo the prime, and with these all operations agree. So anything that is computed with
elements is what the same formula gives in a field, the inverse included, which is a power.
-/

namespace SecureShell.Curve.Element

variable {x y : Element}

/-- The residue of an element. -/
def residue (x : Element) : ZMod prime := (x.val : ZMod prime)

theorem residue_inj : x.residue = y.residue ↔ x = y := by
  refine ⟨fun h ↦ Fin.ext ?_, congrArg residue⟩
  rwa [residue, residue, ZMod.natCast_eq_natCast_iff', Nat.mod_eq_of_lt x.isLt,
    Nat.mod_eq_of_lt y.isLt] at h

@[simp] theorem residue_ofNat (n : ℕ) : (ofNat n).residue = n := ZMod.natCast_mod n prime

@[simp] theorem residue_zero : (0 : Element).residue = 0 := by
  have h := residue_ofNat 0
  rwa [Nat.cast_zero] at h

@[simp] theorem residue_one : (1 : Element).residue = 1 := by
  have h := residue_ofNat 1
  rwa [Nat.cast_one] at h

@[simp] theorem residue_add (x y : Element) : (x + y).residue = x.residue + y.residue := by
  rw [residue, Fin.val_add, ZMod.natCast_mod, Nat.cast_add]
  rfl

@[simp] theorem residue_mul (x y : Element) : (x * y).residue = x.residue * y.residue := by
  rw [residue, Fin.val_mul, ZMod.natCast_mod, Nat.cast_mul]
  rfl

@[simp] theorem residue_sub (x y : Element) : (x - y).residue = x.residue - y.residue := by
  have hle : y.val ≤ prime := Nat.le_of_lt y.isLt
  rw [residue, Fin.val_sub, ZMod.natCast_mod, Nat.cast_add, Nat.cast_sub hle, ZMod.natCast_self,
    zero_sub, neg_add_eq_sub]
  rfl

@[simp] theorem residue_power (x : Element) (n : ℕ) : (x.power n).residue = x.residue ^ n := by
  rw [power]
  refine foldl_bitsOf (R := fun (acc : Element) m ↦ acc.residue = x.residue ^ m) ?_ ?_ n
  · rw [residue_one, pow_zero]
  · rintro acc m (- | -) hacc
    · simp [hacc, two_mul, pow_add]
    · simp [hacc, two_mul, pow_add]

/-- **The inverse of an element is its inverse in the field**, and zero for zero. -/
@[simp] theorem residue_inverse (x : Element) : x.inverse.residue = x.residue⁻¹ := by
  have hsize : prime - 2 + 1 = prime - 1 := by decide
  rw [inverse, residue_power]
  by_cases h : x.residue = 0
  · rw [h, inv_zero, zero_pow (by decide)]
  · refine eq_inv_of_mul_eq_one_left ?_
    rw [← pow_succ, hsize, ZMod.pow_card_sub_one_eq_one h]

/-! ### Bytes -/

/-- An element is read from its bytes as it was written. -/
theorem ofBytes_toBytes (x : Element) : ofBytes x.toBytes = x := by
  have hlt : x.val < Nat.pow 2 255 := x.isLt.trans (by decide)
  have hbytes : ofLittleEndian x.toBytes = x.val := by
    rw [toBytes, ofLittleEndian_littleEndian, Nat.mod_eq_of_lt (hlt.trans (by decide))]
  rw [ofBytes, hbytes, Nat.mod_eq_of_lt hlt]
  exact Fin.ext (Nat.mod_eq_of_lt x.isLt)

end SecureShell.Curve.Element

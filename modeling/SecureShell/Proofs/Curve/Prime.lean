import SecureShell.Curve.Field
import Mathlib.NumberTheory.LucasPrimality
import Mathlib.Tactic.NormNum.Prime

/-!
# The size of the field is prime

Lucas's test: a number is prime if some base has full order modulo it, which can be seen from the
prime factors of the number before it (`prime_of_factors`). The powers that this takes are computed
by repeated squaring along the binary digits of the exponent. What such a computation does is said
once, for any function of digits (`foldl_bitsOf`), since multiples of points are computed in the
same way.
-/

namespace SecureShell.Curve

/-! ### Binary digits -/

/-- **To go through the digits of a number from the top** is to have gone through the number: each
digit doubles what was there before and adds itself. -/
theorem foldl_bitsOf {β : Type} {R : β → ℕ → Prop} {f : β → Bool → β} {init : β} (hinit : R init 0)
    (hstep : ∀ s m b, R s m → R (f s b) (2 * m + b.toNat)) (n : ℕ) :
    R ((bitsOf n).foldl f init) n := by
  -- From the digit at `k` downwards, when the digits above it have been gone through.
  have hdigits : ∀ k s, R s (n >>> k) → R (((List.range k).reverse.map n.testBit).foldl f s) n := by
    intro k
    induction k with
    | zero => exact fun s hs ↦ hs
    | succ k ih =>
      intro s hs
      rw [List.range_succ, List.reverse_append, List.reverse_singleton, List.singleton_append,
        List.map_cons, List.foldl_cons]
      refine ih _ ?_
      have hsplit : n >>> k = 2 * n >>> (k + 1) + (n.testBit k).toNat := by
        rw [Nat.toNat_testBit, Nat.shiftRight_succ, Nat.shiftRight_eq_div_pow]
        omega
      rw [hsplit]
      exact hstep s _ _ hs
  refine hdigits _ _ ?_
  rwa [Nat.shiftRight_eq_div_pow, Nat.div_eq_of_lt Nat.lt_log2_self]

/-! ### Lucas's test -/

/-- A power modulo a number, by repeated squaring. -/
def powerMod (p a n : ℕ) : ℕ :=
  (bitsOf n).foldl (fun acc bit ↦ if bit then acc * acc % p * a % p else acc * acc % p) 1

theorem cast_powerMod (p a n : ℕ) : (powerMod p a n : ZMod p) = (a : ZMod p) ^ n := by
  rw [powerMod]
  refine foldl_bitsOf (R := fun (acc m : ℕ) ↦ (acc : ZMod p) = (a : ZMod p) ^ m) ?_ ?_ n
  · rw [Nat.cast_one, pow_zero]
  · rintro acc m (- | -) hacc
    · simp [hacc, two_mul, pow_add]
    · simp [hacc, two_mul, pow_add]

/-- Powers can be computed. -/
theorem pow_eq_one_iff {p a n : ℕ} : (a : ZMod p) ^ n = 1 ↔ powerMod p a n % p = 1 % p := by
  rw [← cast_powerMod, ← Nat.cast_one, ZMod.natCast_eq_natCast_iff']

/-- **A number is prime if a base has full order**: its power is one for the number before, but not
for that number without one of its prime factors. Small factors are known to be prime anyway. -/
theorem prime_of_factors {p : ℕ} (a : ℕ) (small large : List ℕ)
    (hsmall : ∀ q ∈ small, q.Prime) (hlarge : ∀ q ∈ large, q.Prime)
    (hcheck : (small ++ large).prod = p - 1 ∧ powerMod p a (p - 1) % p = 1 % p ∧
      ∀ q ∈ small ++ large, powerMod p a ((p - 1) / q) % p ≠ 1 % p) : p.Prime := by
  obtain ⟨hproduct, hone, hfull⟩ := hcheck
  refine lucas_primality p a (pow_eq_one_iff.2 hone) fun q hq hdvd ↦ ?_
  rw [← hproduct] at hdvd
  obtain ⟨r, hr, hqr⟩ := (Prime.dvd_prod_iff hq.prime).1 hdvd
  have hrprime : r.Prime := (List.mem_append.1 hr).elim (hsmall r) (hlarge r)
  obtain rfl := (Nat.prime_dvd_prime_iff_eq hq hrprime).1 hqr
  exact fun h ↦ hfull q hr (pow_eq_one_iff.1 h)

/-! ### The prime -/

/-- **The size of the field is prime.** -/
theorem prime_prime : prime.Prime := by
  have h₁ : Nat.Prime 2773320623 :=
    prime_of_factors 5 [2, 2437, 569003] [] (by norm_num) (by simp) (by decide +kernel)
  have h₂ : Nat.Prime 72106336199 :=
    prime_of_factors 7 [2, 13] [2773320623] (by norm_num) (by simpa) (by decide +kernel)
  have h₃ : Nat.Prime 1919519569386763 :=
    prime_of_factors 2 [2, 3, 7, 19, 47, 47, 127, 8574133] [] (by norm_num) (by simp)
      (by decide +kernel)
  have h₄ : Nat.Prime 31757755568855353 :=
    prime_of_factors 10 [2, 2, 2, 3, 31, 107, 223, 4153, 430751] [] (by norm_num) (by simp)
      (by decide +kernel)
  have h₅ : Nat.Prime 75445702479781427272750846543864801 :=
    prime_of_factors 7 [2, 2, 2, 2, 2, 3, 3, 5, 5, 75707] [72106336199, 1919519569386763]
      (by norm_num) (by simp [h₂, h₃]) (by decide +kernel)
  have h₆ : Nat.Prime
      74058212732561358302231226437062788676166966415465897661863160754340907 :=
    prime_of_factors 2 [2, 3, 353, 57467, 132049, 1923133]
      [31757755568855353, 75445702479781427272750846543864801]
      (by norm_num) (by simp [h₄, h₅]) (by decide +kernel)
  exact prime_of_factors 2 [2, 2, 3, 65147]
    [74058212732561358302231226437062788676166966415465897661863160754340907]
    (by norm_num) (by simp [h₆]) (by decide +kernel)

instance : Fact prime.Prime := ⟨prime_prime⟩

end SecureShell.Curve

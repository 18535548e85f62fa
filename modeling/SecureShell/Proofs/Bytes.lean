import SecureShell.Secret
import Mathlib.Algebra.Order.Group.Nat
import Mathlib.Data.List.Induction
import Mathlib.Tactic.Ring

/-!
# Byte strings: integers, text and comparison

What reading an integer gives back, the UTF-8 bytes of texts that are put together, and when two
byte strings have no difference. The integer lemmas speak of every width, so that one statement
serves lengths, words and counters. A secret is compared by its length and then by collecting the
differences of all bytes; both together are equality (`Secret.agrees_iff`), and the lengths are
needed, since differences are collected only as far as both reach.
-/

namespace SecureShell

/-! ### Integers -/

@[simp] theorem ofBigEndian_nil : ofBigEndian [] = 0 := rfl

theorem ofBigEndian_concat (b : Bytes) (x : UInt8) :
    ofBigEndian (b ++ [x]) = ofBigEndian b * 256 + x.toNat := by
  rw [ofBigEndian, List.foldl_append]
  rfl

/-- Reading what was written gives the number back, as far as the width reaches. -/
theorem ofBigEndian_bigEndian (width value : ℕ) :
    ofBigEndian (bigEndian width value) = value % 256 ^ width := by
  induction width generalizing value with
  | zero => rw [bigEndian, ofBigEndian_nil, pow_zero, Nat.mod_one]
  | succ width ih =>
    have hlast : (UInt8.ofNat value).toNat = value % 256 := UInt8.toNat_ofNat'
    rw [bigEndian, ofBigEndian_concat, ih, hlast, pow_succ', Nat.mod_mul]
    ring

/-- A number that fits the width is read back as it is. -/
theorem ofBigEndian_bigEndian_of_lt {width value : ℕ} (h : value < 256 ^ width) :
    ofBigEndian (bigEndian width value) = value := by
  rw [ofBigEndian_bigEndian, Nat.mod_eq_of_lt h]

/-- A byte string spells a number that its width reaches. -/
theorem ofBigEndian_lt (b : Bytes) : ofBigEndian b < 256 ^ b.length := by
  induction b using List.reverseRecOn with
  | nil => exact Nat.one_pos
  | append_singleton b x ih =>
    have hx : x.toNat < 256 := x.toNat_lt
    rw [ofBigEndian_concat, List.length_append, List.length_singleton, pow_succ]
    omega

/-- Writing what was read gives the bytes back. -/
theorem bigEndian_ofBigEndian (b : Bytes) : bigEndian b.length (ofBigEndian b) = b := by
  induction b using List.reverseRecOn with
  | nil => rfl
  | append_singleton b x ih =>
    have hx : x.toNat < 256 := x.toNat_lt
    have hhigh : (ofBigEndian b * 256 + x.toNat) / 256 = ofBigEndian b := by omega
    have hlow : UInt8.ofNat (ofBigEndian b * 256 + x.toNat) = x := by
      rw [← UInt8.toNat_inj, UInt8.toNat_ofNat']
      omega
    rw [List.length_append, List.length_singleton, bigEndian, ofBigEndian_concat, hhigh, hlow, ih]

/-- The same with the least significant byte first. -/
theorem ofLittleEndian_littleEndian (width value : ℕ) :
    ofLittleEndian (littleEndian width value) = value % 256 ^ width := by
  induction width generalizing value with
  | zero => rw [pow_zero, Nat.mod_one, littleEndian, ofLittleEndian, List.foldr_nil]
  | succ width ih =>
    have hfirst : (UInt8.ofNat value).toNat = value % 256 := UInt8.toNat_ofNat'
    show (UInt8.ofNat value).toNat + 256 * ofLittleEndian (littleEndian width (value / 256)) = _
    rw [ih, hfirst, pow_succ', Nat.mod_mul]

/-! ### Text -/

theorem utf8_append (s t : String) : utf8 (s ++ t) = utf8 s ++ utf8 t := by
  simp [utf8]

/-- Texts with the same bytes are the same. -/
theorem utf8_inj {s t : String} : utf8 s = utf8 t ↔ s = t := by
  refine ⟨fun h ↦ ?_, congrArg utf8⟩
  have hs := ofUtf8?_utf8 s
  rw [h, ofUtf8?_utf8] at hs
  exact (Option.some.inj hs).symm

/-- The bytes of each character of a text are among the bytes of the text. -/
theorem mem_utf8_of_mem_toList {s : String} {c : Char} (h : c ∈ s.toList) {b : UInt8}
    (hb : b ∈ utf8 (String.singleton c)) : b ∈ utf8 s := by
  obtain ⟨l, r, hs⟩ := List.append_of_mem h
  have htext : s = String.ofList l ++ String.singleton c ++ String.ofList r := by
    rw [← String.toList_inj]
    simp [hs]
  rw [htext, utf8_append, utf8_append]
  simp [hb]

/-! ### Comparison -/

/-- What has been collected is zero at the end if it was at the beginning and every pair of bytes
agrees: a bit that was set once stays set. -/
theorem collected_eq_zero_iff {a b : Bytes} (h : a.length = b.length) (acc : UInt8) :
    (a.zip b).foldl (fun acc p ↦ acc ||| (p.1 ^^^ p.2)) acc = 0 ↔ acc = 0 ∧ a = b := by
  induction a generalizing b acc with
  | nil =>
    obtain rfl := List.length_eq_zero_iff.1 h.symm
    simp
  | cons x a ih =>
    rcases b with - | ⟨y, b⟩
    · cases h
    · rw [List.zip_cons_cons, List.foldl_cons, ih (Nat.succ.inj h), UInt8.or_eq_zero_iff,
        UInt8.xor_eq_zero_iff, and_assoc, List.cons.injEq]

/-- **Byte strings of one length have no difference exactly if they are the same.** -/
theorem difference_eq_zero_iff {a b : Bytes} (h : a.length = b.length) :
    difference a b = 0 ↔ a = b := by
  rw [difference, collected_eq_zero_iff h, and_iff_right rfl]

/-- **A secret agrees with its own bytes and with no others**, however many there are. -/
theorem Secret.agrees_iff {s : Secret} {x : Bytes} : s.agrees x = true ↔ s.bytes = x := by
  rw [agrees]
  split
  · rename_i hlength
    refine ⟨fun h ↦ ?_, fun h ↦ absurd (congrArg List.length h) hlength⟩
    cases h
  · rename_i hlength
    rw [beq_iff_eq, difference_eq_zero_iff (not_not.1 hlength)]

end SecureShell

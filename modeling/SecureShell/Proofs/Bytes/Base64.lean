import SecureShell.Bytes.Base64
import SecureShell.Proofs.Text.Blank
import Mathlib.Data.List.TakeWhile
import Mathlib.Data.Nat.Notation

/-!
# Base64: what is written is read

Between bytes and digits stand values of six bits, those of a byte string being its `values`. Bytes
and values are matched group by group (`ofValues?_values`), values and digits one by one
(`value?_digit`), so neither argument sees the other's side. Padding signs are no digits, which is
why a reader finds the border between the two. None of them is a blank, so the text of a byte string
is a word (`isWord_encode`).
-/

namespace SecureShell.Base64

/-- The six bit values of a byte string, most significant first. The last one is filled up with
zeros. -/
def values : Bytes → List ℕ
  | [] => []
  | [x] => [x.toNat / 4, x.toNat % 4 * 16]
  | [x, y] => [x.toNat / 4, x.toNat % 4 * 16 + y.toNat / 16, y.toNat % 16 * 4]
  | x :: y :: z :: rest =>
    x.toNat / 4 :: (x.toNat % 4 * 16 + y.toNat / 16) :: (y.toNat % 16 * 4 + z.toNat / 64) ::
      z.toNat % 64 :: values rest

/-! ### Values and digits -/

/-- Every value has a digit of its own. -/
theorem value?_digit : ∀ n < 64, value? (digit n) = some n := by
  decide

theorem digits_eq_map (b : Bytes) : digits b = (values b).map digit := by
  induction b using values.induct with
  | case1 => rfl
  | case2 x => rfl
  | case3 x y => rfl
  | case4 x y z rest ih => rw [digits, values, ih]; rfl

theorem lt_of_mem_values {b : Bytes} {n : ℕ} (h : n ∈ values b) : n < 64 := by
  induction b using values.induct with
  | case1 => cases h
  | case2 x =>
    have hx : x.toNat < 256 := x.toNat_lt
    simp only [values, List.mem_cons, List.not_mem_nil, or_false] at h
    omega
  | case3 x y =>
    have hx : x.toNat < 256 := x.toNat_lt
    have hy : y.toNat < 256 := y.toNat_lt
    simp only [values, List.mem_cons, List.not_mem_nil, or_false] at h
    omega
  | case4 x y z rest ih =>
    have hx : x.toNat < 256 := x.toNat_lt
    have hy : y.toNat < 256 := y.toNat_lt
    have hz : z.toNat < 256 := z.toNat_lt
    simp only [values, List.mem_cons] at h
    rcases h with h | h | h | h | h
    · omega
    · omega
    · omega
    · omega
    · exact ih h

/-- Every digit that is written is that of a value. -/
theorem exists_of_mem_digits {b : Bytes} {c : Char} (h : c ∈ digits b) : ∃ n < 64, digit n = c := by
  rw [digits_eq_map, List.mem_map] at h
  obtain ⟨n, hn, rfl⟩ := h
  exact ⟨n, lt_of_mem_values hn, rfl⟩

theorem ne_sign_of_mem_digits {b : Bytes} {c : Char} (h : c ∈ digits b) : c ≠ '=' := by
  obtain ⟨n, hn, rfl⟩ := exists_of_mem_digits h
  intro hsign
  have hvalue := value?_digit n hn
  rw [hsign] at hvalue
  cases hvalue

/-- Digits are read one by one. -/
theorem mapM_value?_map_digit {ns : List ℕ} (h : ∀ n ∈ ns, n < 64) :
    (ns.map digit).mapM value? = some ns := by
  induction ns with
  | nil => rfl
  | cons n ns ih =>
    have hn : value? (digit n) = some n := value?_digit n (h n List.mem_cons_self)
    rw [List.map_cons, List.mapM_cons, hn, ih fun m hm ↦ h m (List.mem_cons_of_mem n hm)]
    rfl

/-! ### Bytes and values -/

/-- **Values are put together to the bytes they were taken from.** The bits that fill up the last
one would be refused if they were not zero. -/
theorem ofValues?_values (b : Bytes) : ofValues? (values b) = some b := by
  have hbyte : ∀ {n : ℕ} {x : UInt8}, n = x.toNat → UInt8.ofNat n = x := by
    rintro _ x rfl
    exact UInt8.ofNat_toNat
  induction b using values.induct with
  | case1 => rfl
  | case2 x =>
    have hx : UInt8.ofNat (x.toNat / 4 * 4 + x.toNat % 4 * 16 / 16) = x := hbyte (by omega)
    rw [values, ofValues?, if_pos (by omega), hx]
  | case3 x y =>
    have hylt : y.toNat < 256 := y.toNat_lt
    have hx : UInt8.ofNat (x.toNat / 4 * 4 + (x.toNat % 4 * 16 + y.toNat / 16) / 16) = x :=
      hbyte (by omega)
    have hy : UInt8.ofNat ((x.toNat % 4 * 16 + y.toNat / 16) % 16 * 16 +
        y.toNat % 16 * 4 / 4) = y := hbyte (by omega)
    rw [values, ofValues?, if_pos (by omega), hx, hy]
  | case4 x y z rest ih =>
    have hylt : y.toNat < 256 := y.toNat_lt
    have hzlt : z.toNat < 256 := z.toNat_lt
    have hx : UInt8.ofNat (x.toNat / 4 * 4 + (x.toNat % 4 * 16 + y.toNat / 16) / 16) = x :=
      hbyte (by omega)
    have hy : UInt8.ofNat ((x.toNat % 4 * 16 + y.toNat / 16) % 16 * 16 +
        (y.toNat % 16 * 4 + z.toNat / 64) / 4) = y := hbyte (by omega)
    have hz : UInt8.ofNat ((y.toNat % 16 * 4 + z.toNat / 64) % 4 * 64 + z.toNat % 64) = z :=
      hbyte (by omega)
    rw [values, ofValues?, ih, hx, hy, hz]
    rfl

/-- As many padding signs are written as complete the last group of digits. -/
theorem padding_length (b : Bytes) : padding b.length = (4 - (digits b).length % 4) % 4 := by
  induction b using values.induct with
  | case1 => rfl
  | case2 x => rfl
  | case3 x y => rfl
  | case4 x y z rest ih =>
    have hbytes : padding (rest.length + 3) = padding rest.length := by
      rw [padding, padding, Nat.add_mod_right]
    have hdigits : ((digits rest).length + 4) % 4 = (digits rest).length % 4 :=
      Nat.add_mod_right ..
    show padding (rest.length + 3) = (4 - ((digits rest).length + 4) % 4) % 4
    rw [hbytes, hdigits, ih]

/-! ### The text -/

theorem toList_encode (b : Bytes) :
    (encode b).toList = digits b ++ List.replicate (padding b.length) '=' :=
  String.toList_ofList

/-- **The text of a byte string is read as that byte string.** -/
theorem decode?_encode (b : Bytes) : decode? (encode b) = some b := by
  have hdigit : ∀ c ∈ digits b, (c != '=') = true := fun c hc ↦
    bne_iff_ne.2 (ne_sign_of_mem_digits hc)
  have hbody : (encode b).toList.takeWhile (· != '=') = digits b := by
    rw [toList_encode, List.takeWhile_append_of_pos hdigit]
    simp
  have hsigns : (encode b).toList.dropWhile (· != '=') =
      List.replicate (padding b.length) '=' := by
    rw [toList_encode, List.dropWhile_append_of_pos hdigit]
    simp
  have hvalues : (digits b).mapM value? = some (values b) := by
    rw [digits_eq_map]
    exact mapM_value?_map_digit fun n ↦ lt_of_mem_values
  have hlength : (List.replicate (padding b.length) '=').length ≤
      (4 - (digits b).length % 4) % 4 := by
    rw [List.length_replicate, padding_length]
  have hall : (List.replicate (padding b.length) '=').all (· == '=') = true := by
    simp
  simp only [decode?, hbody, hsigns, hvalues, hall, hlength, decide_true, Bool.and_self, if_true]
  exact ofValues?_values b

/-- **There are no blanks in the text of a byte string**, and a text of some bytes is not empty. -/
theorem isWord_encode {b : Bytes} (h : b ≠ []) : Text.IsWord (encode b).toList := by
  have hdigit : ∀ n < 64, Text.isBlank (digit n) = false := by decide
  refine ⟨fun hnil ↦ ?_, fun c hc ↦ ?_⟩
  · have hdecode := decode?_encode b
    rw [decode?, hnil] at hdecode
    exact h (Option.some.inj hdecode).symm
  · rw [toList_encode, List.mem_append] at hc
    rcases hc with hc | hc
    · obtain ⟨n, hn, rfl⟩ := exists_of_mem_digits hc
      exact hdigit n hn
    · rw [List.eq_of_mem_replicate hc]
      rfl

end SecureShell.Base64

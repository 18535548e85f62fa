import SecureShell.Cipher.ChaCha20
import SecureShell.Proofs.Bytes

/-!
# The keystream, byte by byte

A stream that is used up piece by piece gives the same bytes as one that is used up at once: the
byte at a position is a matter of the key, the nonce and the position (`keystreamByte`). What
`Keystream.apply` does to data is said in these terms (`Keystream.getElem?_apply`), and then it does
not matter any more whether a piece starts inside a block or how many blocks it takes.
-/

namespace SecureShell.Cipher.ChaCha20

/-- The byte of the keystream at a position, which is counted from the start of block zero. -/
def keystreamByte (key nonce : Bytes) (i : ℕ) : UInt8 :=
  (block key nonce (i / 64)).getD (i % 64) 0

variable {key nonce : Bytes}

/-- Blocks that follow one another hold the keystream from the first of them on. -/
theorem getElem?_flatMap_block {counter count i : ℕ} (h : i < 64 * count) :
    ((List.range count).flatMap fun k ↦ block key nonce (counter + k))[i]? =
      some (keystreamByte key nonce (64 * counter + i)) := by
  induction count with
  | zero => omega
  | succ count ih =>
    have hlength :
        ((List.range count).flatMap fun k ↦ block key nonce (counter + k)).length = count * 64 := by
      rw [length_flatMap_const _ fun _ ↦ length_block _ _ _, List.length_range]
    rw [List.range_succ, List.flatMap_append, List.flatMap_singleton]
    by_cases hi : i < 64 * count
    · rw [List.getElem?_append_left (by omega), ih hi]
    · -- The last block holds this byte.
      have hblock : (64 * counter + i) / 64 = counter + count := by omega
      have hbyte : (64 * counter + i) % 64 = i - count * 64 := by omega
      have hinside : i - count * 64 < (block key nonce (counter + count)).length := by
        rw [length_block]
        omega
      rw [List.getElem?_append_right (by omega), hlength, keystreamByte, hblock, hbyte,
        List.getD_eq_getElem?_getD, List.getElem?_eq_getElem hinside, Option.getD_some]

theorem getElem?_keystream {counter n i : ℕ} (h : i < n) :
    (keystream key nonce counter n)[i]? = some (keystreamByte key nonce (64 * counter + i)) := by
  rw [keystream, List.getElem?_take_of_lt h, getElem?_flatMap_block (by omega)]

/-- Less than a block of the keystream is a front of a block. -/
theorem keystream_of_lt {counter n : ℕ} (h : n < 64) :
    keystream key nonce counter n = (block key nonce counter).take n := by
  have hblocks : n / 64 + 1 = 1 := by omega
  rw [keystream, hblocks, List.range_one, List.flatMap_singleton, Nat.add_zero]

namespace Keystream

/-- A keystream that has not been used starts with block zero. -/
theorem next_start (n : ℕ) : (start key nonce).next n = keystream key nonce 0 n := by
  rw [next, start, Nat.zero_div, Nat.zero_mod, Nat.zero_add, List.drop_zero]

variable (s : Keystream)

theorem length_next (n : ℕ) : (s.next n).length = n := by
  rw [next, List.length_drop, length_keystream, Nat.add_sub_cancel_left]

/-- The bytes that come next are those from the first unused position on. -/
theorem getElem?_next {n i : ℕ} (h : i < n) :
    (s.next n)[i]? = some (keystreamByte s.key s.nonce (s.used + i)) := by
  have hposition : 64 * (s.used / 64) + (s.used % 64 + i) = s.used + i := by omega
  rw [next, List.getElem?_drop, getElem?_keystream (by omega), hposition]

@[simp] theorem length_apply (data : Bytes) : (s.apply data).1.length = data.length := by
  simp [apply, xorBytes, length_next]

/-- **What applying a keystream does**: the byte at a position is combined with the byte of the
keystream that is as far behind the first unused one. -/
theorem getElem?_apply (data : Bytes) (i : ℕ) :
    (s.apply data).1[i]? = data[i]?.map fun x ↦ x ^^^ keystreamByte s.key s.nonce (s.used + i) := by
  by_cases hi : i < data.length
  · rw [apply, xorBytes, List.getElem?_zipWith, s.getElem?_next hi, List.getElem?_eq_getElem hi]
    rfl
  · rw [List.getElem?_eq_none (by simpa using hi), List.getElem?_eq_none (Nat.le_of_not_lt hi)]
    rfl

/-- **The same bytes of the keystream give the data back.** -/
theorem apply_apply (data : Bytes) : (s.apply (s.apply data).1).1 = data := by
  refine List.ext_getElem? fun i ↦ ?_
  rw [getElem?_apply, getElem?_apply, Option.map_map]
  have htwice : ((fun x ↦ x ^^^ keystreamByte s.key s.nonce (s.used + i)) ∘
      fun x ↦ x ^^^ keystreamByte s.key s.nonce (s.used + i)) = id := by
    funext x
    show x ^^^ _ ^^^ _ = x
    rw [UInt8.xor_assoc, UInt8.xor_self, UInt8.xor_zero]
  rw [htwice, Option.map_id, id]

/-- Zeros become the keystream itself. -/
theorem apply_replicate_zero (n : ℕ) : (s.apply (List.replicate n 0)).1 = s.next n := by
  refine List.ext_getElem? fun i ↦ ?_
  rw [getElem?_apply]
  by_cases hi : i < n
  · simp [s.getElem?_next hi, hi]
  · rw [List.getElem?_eq_none (by simpa using hi), List.getElem?_eq_none (by
      rw [length_next]
      omega)]
    rfl

end Keystream

end SecureShell.Cipher.ChaCha20

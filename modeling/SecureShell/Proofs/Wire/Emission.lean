import SecureShell.Proofs.Bytes
import SecureShell.Wire.Codec
import Mathlib.Data.List.Basic

/-!
# Emissions: what they write

An emission is written in two passes, one that counts and one that writes, and the second cannot
fail where the first did not: a buffer of exactly the counted size has room for every chunk. So the
bytes of an emission are a function of the emission alone (`toBytes_eq`), and everything below
speaks of two things only, whether an emission is complete and which bytes it holds.
-/

namespace SecureShell.Wire

/-! ### Counting -/

/-- **What a counter adds is what there is to write.** The increments are the counter's own, the
bytes are those of the chunk. -/
theorem Counter.count_put (c : Counter) (chunk : Chunk) :
    (c.put chunk).count = c.count + chunk.bytes.length := by
  cases chunk with
  | byte x => rfl
  | word x =>
    rw [Chunk.bytes, length_bigEndian]
    rfl
  | raw b => rfl

/-- All chunks of an emission are counted. -/
theorem Counter.emit_eq (c : Counter) (e : Emission) :
    c.emit e = (⟨c.count + e.size⟩, e.complete) := by
  have hcount : ∀ (chunks : List Chunk) (c : Counter),
      (chunks.foldl put c).count = c.count + (chunks.flatMap Chunk.bytes).length := by
    intro chunks
    induction chunks with
    | nil => exact fun _ ↦ rfl
    | cons chunk chunks ih =>
      intro c
      rw [List.foldl_cons, ih, count_put, List.flatMap_cons, List.length_append, Nat.add_assoc]
  rw [emit, Emission.size, Emission.bytes, ← hcount e.chunks c]

/-! ### Filling a buffer -/

/-- A chunk is written as its bytes. -/
theorem Buffer.put?_eq (b : Buffer) (chunk : Chunk) : b.put? chunk = b.putBytes? chunk.bytes := by
  cases chunk with
  | byte x =>
    rw [put?, putByte?, putBytes?]
    rcases b.untouched with - | ⟨y, rest⟩
    · rfl
    · exact (if_pos (Nat.succ_le_succ (Nat.zero_le _))).symm
  | word x => rfl
  | raw bytes => rfl

/-- Chunks that fit together are all written, one after the other. -/
theorem Buffer.putAll_of_le {chunks : List Chunk} {b : Buffer}
    (h : (chunks.flatMap Chunk.bytes).length ≤ b.untouched.length) :
    b.putAll chunks = (⟨b.written ++ chunks.flatMap Chunk.bytes,
      b.untouched.drop (chunks.flatMap Chunk.bytes).length⟩, true) := by
  induction chunks generalizing b with
  | nil => simp [putAll]
  | cons chunk chunks ih =>
    rw [List.flatMap_cons, List.length_append] at h
    have hput : b.put? chunk =
        some ⟨b.written ++ chunk.bytes, b.untouched.drop chunk.bytes.length⟩ :=
      (b.put?_eq chunk).trans (if_pos (by omega))
    have hrest : (chunks.flatMap Chunk.bytes).length ≤
        (b.untouched.drop chunk.bytes.length).length := by
      rw [List.length_drop]
      omega
    simp only [putAll, hput]
    rw [ih hrest]
    simp

namespace Emission

/-- The second pass fills its buffer exactly. -/
theorem putAll_chunks (e : Emission) :
    (Buffer.ofMemory (List.replicate e.size 0)).putAll e.chunks = (⟨e.bytes, []⟩, true) := by
  have hfit : (e.chunks.flatMap Chunk.bytes).length ≤
      (Buffer.ofMemory (List.replicate e.size 0)).untouched.length := by
    simp [Buffer.ofMemory, size, bytes]
  rw [Buffer.putAll_of_le hfit]
  simp [Buffer.ofMemory, size, bytes]

/-- **The two passes agree.** The result depends on the emission only: its bytes, if it is
complete. -/
theorem toBytes_eq (e : Emission) :
    e.toBytes = if e.complete then .ok e.bytes else .error .encodingFailed := by
  have hcount : Counter.zero.emit e = (⟨e.size⟩, e.complete) := by
    rw [Counter.emit_eq, Counter.zero, Nat.zero_add]
  rcases hc : e.complete with - | -
  · simp [toBytes, hcount, hc]
  · simp [toBytes, hcount, hc, Buffer.emit, putAll_chunks, Buffer.contents]

/-! ### Completeness and bytes of the pieces -/

@[simp] theorem complete_append (a b : Emission) :
    (a ++ b).complete = (a.complete && b.complete) := by
  show (append a b).complete = _
  rcases h : a.complete with - | - <;> simp [append, h]

/-- What follows a complete emission is written after it. -/
theorem bytes_append {a b : Emission} (h : a.complete = true) :
    (a ++ b).bytes = a.bytes ++ b.bytes := by
  show (append a b).bytes = _
  simp [append, h, bytes]

@[simp] theorem complete_empty : empty.complete = true := rfl

@[simp] theorem bytes_empty : empty.bytes = [] := rfl

@[simp] theorem complete_refused : refused.complete = false := rfl

@[simp] theorem complete_chunk (b : Bytes) : (chunk b).complete = true := rfl

@[simp] theorem bytes_chunk (b : Bytes) : (chunk b).bytes = b :=
  List.append_nil b

@[simp] theorem complete_byte (x : UInt8) : (byte x).complete = true := rfl

@[simp] theorem bytes_byte (x : UInt8) : (byte x).bytes = [x] := rfl

@[simp] theorem complete_word (x : UInt32) : (word x).complete = true := rfl

@[simp] theorem bytes_word (x : UInt32) : (word x).bytes = bigEndian 4 x.toNat :=
  List.append_nil _

@[simp] theorem complete_flag (b : Bool) : (flag b).complete = true := rfl

@[simp] theorem bytes_flag (b : Bool) : (flag b).bytes = [if b then 1 else 0] := rfl

@[simp] theorem complete_text (s : String) : (text s).complete = true := rfl

@[simp] theorem bytes_text (s : String) : (text s).bytes = utf8 s :=
  bytes_chunk _

/-- A length can be written if it fits thirty-two bits. -/
@[simp] theorem complete_length (n : ℕ) : (length n).complete = decide (n ≤ 0xffffffff) := by
  by_cases h : n ≤ 0xffffffff <;> simp [length, h]

theorem bytes_length {n : ℕ} (h : n ≤ 0xffffffff) : (length n).bytes = bigEndian 4 n := by
  have hn : (UInt32.ofNat n).toNat = n :=
    UInt32.toNat_ofNat_of_lt' (Nat.lt_of_le_of_lt h (by decide))
  rw [length, if_pos h, bytes_word, hn]

/-- A byte string can be framed if its length can be written. -/
@[simp] theorem complete_framed (b : Bytes) :
    (framed b).complete = decide (b.length ≤ 0xffffffff) := by
  show (length b.length ++ chunk b).complete = _
  simp

theorem bytes_framed {b : Bytes} (h : b.length ≤ 0xffffffff) :
    (framed b).bytes = bigEndian 4 b.length ++ b := by
  show (length b.length ++ chunk b).bytes = _
  rw [bytes_append (by simpa using h), bytes_length h, bytes_chunk]

end Emission

/-- **A value is encoded as what it asks to be written**, if it is written to its end. -/
theorem encode_eq_ok_iff {α : Type} [Writable α] {a : α} {b : Bytes} :
    encode a = .ok b ↔ (emission a).complete = true ∧ b = (emission a).bytes := by
  rw [encode, Emission.toBytes_eq]
  split
  · rename_i hcomplete
    rw [Except.ok.injEq, eq_comm, and_iff_right hcomplete]
  · rename_i hcomplete
    simp [hcomplete]

theorem exists_encode_iff {α : Type} [Writable α] {a : α} :
    (∃ b, encode a = .ok b) ↔ (emission a).complete = true := by
  simp [encode_eq_ok_iff]

end SecureShell.Wire

import SecureShell.Proofs.Wire.NameList
import SecureShell.Wire.Buffer

/-!
# Outputs: the counting pass and the writing pass

A counter and a buffer are asked for the same things. The counter never lacks room, so it refuses
only what cannot be written at all; the buffer has its capacity as well. This module compares the
two after any operations, also after some of them have failed half way.

Everything rests on one lemma about one emission (`Buffer.emit_spec`): a buffer takes a front of its
bytes, all of them exactly if there is room. What a buffer may become at all is `Buffer.Extends`,
which is transitive, so a run of operations keeps what one of them keeps. What an operation ought to
write is said without an output (`Operation.encoding?`), and the emissions are measured by it.
-/

namespace SecureShell.Wire

/-! ### Early return

An emission that was put together is emitted piece by piece, and the second piece is left out if the
first failed. This is what makes one description serve both outputs. -/

/-- A counter goes on to the second part of an emission only if the first was complete. -/
theorem Counter.emit_append (c : Counter) (d e : Emission) :
    c.emit (d ++ e) =
      match c.emit d with
      | (c, true) => c.emit e
      | (c, false) => (c, false) := by
  rcases h : d.complete with - | -
  · have hd : d ++ e = d := by
      show Emission.append d e = d
      simp [Emission.append, h]
    simp [hd, emit, h]
  · have hbytes : (d ++ e).bytes = d.bytes ++ e.bytes := Emission.bytes_append h
    simp [emit_eq, h, Emission.size, hbytes, Nat.add_assoc]

/-- Chunks that follow others are written if all of those were. -/
theorem Buffer.putAll_append (b : Buffer) (front rest : List Chunk) :
    b.putAll (front ++ rest) =
      match b.putAll front with
      | (b, true) => b.putAll rest
      | (b, false) => (b, false) := by
  induction front generalizing b with
  | nil => rfl
  | cons chunk front ih =>
    rw [List.cons_append, putAll, putAll]
    rcases b.put? chunk with - | b
    · rfl
    · exact ih b

/-- A buffer goes on to the second part of an emission only if the first was complete and fitted. -/
theorem Buffer.emit_append (b : Buffer) (d e : Emission) :
    b.emit (d ++ e) =
      match b.emit d with
      | (b, true) => b.emit e
      | (b, false) => (b, false) := by
  rcases h : d.complete with - | -
  · have hd : d ++ e = d := by
      show Emission.append d e = d
      simp [Emission.append, h]
    simp [hd, emit, h]
  · have hchunks : (d ++ e).chunks = d.chunks ++ e.chunks := by
      show (Emission.append d e).chunks = _
      simp [Emission.append, h]
    rcases hfront : b.putAll d.chunks with ⟨c, - | -⟩
    · simp [emit, hchunks, putAll_append, hfront]
    · simp [emit, hchunks, putAll_append, hfront, h]

/-! ### What a buffer takes of one emission -/

namespace Buffer

/-- Of chunks that do not all fit, a buffer takes a proper front. -/
theorem putAll_of_lt {chunks : List Chunk} {b : Buffer}
    (h : b.untouched.length < (chunks.flatMap Chunk.bytes).length) :
    ∃ front, front <+: chunks.flatMap Chunk.bytes ∧ front.length ≤ b.untouched.length ∧
      b.putAll chunks = (⟨b.written ++ front, b.untouched.drop front.length⟩, false) := by
  induction chunks generalizing b with
  | nil => simp at h
  | cons chunk chunks ih =>
    rw [List.flatMap_cons, List.length_append] at h
    by_cases hfit : chunk.bytes.length ≤ b.untouched.length
    · -- This chunk is taken, so one that follows does not fit.
      have hrest : (b.untouched.drop chunk.bytes.length).length <
          (chunks.flatMap Chunk.bytes).length := by
        rw [List.length_drop]
        omega
      obtain ⟨front, hfront, hle, hput⟩ :=
        ih (b := ⟨b.written ++ chunk.bytes, b.untouched.drop chunk.bytes.length⟩) hrest
      rw [List.length_drop] at hle
      refine ⟨chunk.bytes ++ front, ?_, ?_, ?_⟩
      · rw [List.flatMap_cons]
        exact List.prefix_append_right_inj chunk.bytes |>.2 hfront
      · rw [List.length_append]
        omega
      · rw [putAll, put?_eq, putBytes?, if_pos hfit]
        simpa [List.drop_drop, List.append_assoc] using hput
    · refine ⟨[], List.nil_prefix, Nat.zero_le _, ?_⟩
      rw [putAll, put?_eq, putBytes?, if_neg hfit]
      simp

/-- **What a buffer takes of an emission**: a front of its bytes, all of them exactly if there is
room for all of them. The emission has succeeded if they have been taken and nothing was refused. -/
theorem emit_spec (b : Buffer) (e : Emission) :
    ∃ front, front <+: e.bytes ∧ front.length ≤ b.untouched.length ∧
      (e.size ≤ b.untouched.length ↔ front = e.bytes) ∧
      b.emit e = (⟨b.written ++ front, b.untouched.drop front.length⟩,
        decide (e.complete = true ∧ e.size ≤ b.untouched.length)) := by
  by_cases hfit : e.size ≤ b.untouched.length
  · refine ⟨e.bytes, List.prefix_refl _, hfit, iff_of_true hfit rfl, ?_⟩
    rw [emit, putAll_of_le hfit]
    simp [hfit, Emission.bytes]
  · obtain ⟨front, hfront, hle, hput⟩ := putAll_of_lt (Nat.lt_of_not_le hfit)
    refine ⟨front, hfront, hle, iff_of_false hfit fun he ↦ hfit ?_, ?_⟩
    · rwa [Emission.size, ← he]
    · rw [emit, hput]
      simp [hfit]

/-! ### What writing keeps -/

/-- **What a buffer may become by writing**: the bytes before the position stay and more may follow
them, and the bytes from the new position on are what they were. -/
def Extends (b c : Buffer) : Prop :=
  ∃ front, c.written = b.written ++ front ∧ b.untouched.length = front.length + c.untouched.length ∧
    c.untouched = b.untouched.drop front.length

theorem Extends.refl (b : Buffer) : b.Extends b :=
  ⟨[], by simp, by simp, by simp⟩

theorem Extends.trans {b c d : Buffer} (hbc : b.Extends c) (hcd : c.Extends d) : b.Extends d := by
  obtain ⟨first, hwritten, hlength, huntouched⟩ := hbc
  obtain ⟨second, hwritten', hlength', huntouched'⟩ := hcd
  refine ⟨first ++ second, ?_, ?_, ?_⟩
  · rw [hwritten', hwritten, List.append_assoc]
  · rw [hlength, hlength', List.length_append, Nat.add_assoc]
  · rw [huntouched', huntouched, List.drop_drop, List.length_append]

/-- Writing keeps what is behind the position and what is beyond it, also when it fails. -/
theorem extends_emit (b : Buffer) (e : Emission) : b.Extends (b.emit e).1 := by
  obtain ⟨front, -, hle, -, hemit⟩ := b.emit_spec e
  rw [hemit]
  refine ⟨front, rfl, ?_, rfl⟩
  rw [List.length_drop]
  omega

theorem Extends.position_le {b c : Buffer} (h : b.Extends c) : b.position ≤ c.position := by
  obtain ⟨front, hwritten, -, -⟩ := h
  simp [position, hwritten]

theorem Extends.length_contents {b c : Buffer} (h : b.Extends c) :
    c.contents.length = b.contents.length := by
  obtain ⟨front, hwritten, hlength, -⟩ := h
  simp [contents, hwritten, hlength]

/-- The bytes before the old position are still there. -/
theorem Extends.take_contents {b c : Buffer} (h : b.Extends c) :
    c.contents.take b.position = b.contents.take b.position := by
  obtain ⟨front, hwritten, -, -⟩ := h
  simp [contents, position, hwritten]

/-- The bytes from the new position on have not been touched. -/
theorem Extends.drop_contents {b c : Buffer} (h : b.Extends c) :
    c.contents.drop c.position = b.contents.drop c.position := by
  obtain ⟨front, hwritten, -, huntouched⟩ := h
  simp [contents, position, hwritten, huntouched, List.drop_append]

theorem position_le_length_contents (b : Buffer) : b.position ≤ b.contents.length := by
  simp [position, contents]

/-- The room left in a buffer over a piece of memory is what lies beyond the position. -/
theorem Extends.length_untouched {memory : Bytes} {b : Buffer} (h : (ofMemory memory).Extends b) :
    b.untouched.length = memory.length - b.position := by
  have hcontents : b.written.length + b.untouched.length = memory.length := by
    simpa [contents, ofMemory] using h.length_contents
  rw [position]
  omega

end Buffer

/-! ### Operations -/

/-- What can be asked of an output: the primitive values, the compound ones, and the values of any
type that can be written. -/
inductive Operation : Type 1 where
  /-- A single byte. -/
  | byte (x : UInt8)
  /-- A 32 bit word. -/
  | word (x : UInt32)
  /-- A byte string as it is. -/
  | bytes (b : Bytes)
  /-- A truth value. -/
  | flag (b : Bool)
  /-- A length. -/
  | length (n : ℕ)
  /-- A text as it is. -/
  | text (s : String)
  /-- A text after its length. -/
  | framedText (s : String)
  /-- A byte string after its length. -/
  | framed (b : Bytes)
  /-- A list of names. -/
  | nameList (names : List String)
  /-- A value. -/
  | value {α : Type} [Writable α] (a : α)

namespace Operation

/-- What an operation asks of an output. -/
def emission : Operation → Emission
  | byte x => Emission.byte x
  | word x => Emission.word x
  | bytes b => Emission.chunk b
  | flag b => Emission.flag b
  | length n => Emission.length n
  | text s => Emission.text s
  | framedText s => Emission.framedText s
  | framed b => Emission.framed b
  | nameList names => NameList.emission names
  | value a => Writable.emission a

/-- A byte string behind its length, if that can be written. -/
def frame? (b : Bytes) : Option Bytes :=
  if b.length ≤ 0xffffffff then some (bigEndian 4 b.length ++ b) else none

/-- **The full encoding of an operation**, if it has one. It is a matter of the operation alone: no
output takes part in it, and names are joined before they are framed. -/
def encoding? : Operation → Option Bytes
  | byte x => some [x]
  | word x => some (bigEndian 4 x.toNat)
  | bytes b => some b
  | flag b => some [if b then 1 else 0]
  | length n => if n ≤ 0xffffffff then some (bigEndian 4 n) else none
  | text s => some (utf8 s)
  | framedText s => frame? (utf8 s)
  | framed b => frame? b
  | nameList names => if NameList.Travels names then frame? (utf8 (NameList.join names)) else none
  | value a => (encode a).toOption

theorem frame?_eq_some_iff {b full : Bytes} :
    frame? b = some full ↔
      (Emission.framed b).complete = true ∧ full = (Emission.framed b).bytes := by
  rw [frame?, Emission.complete_framed, decide_eq_true_eq, Option.ite_none_right_eq_some]
  refine and_congr_right fun hle ↦ ?_
  rw [Emission.bytes_framed hle, Option.some_inj, eq_comm]

/-- **What is asked of an output is the full encoding**, and nothing is refused of an operation that
has one. -/
theorem encoding?_eq_some_iff {o : Operation} {full : Bytes} :
    o.encoding? = some full ↔ o.emission.complete = true ∧ full = o.emission.bytes := by
  cases o with
  | byte x | word x | bytes b | flag b | text s =>
    simp [encoding?, emission, eq_comm]
  | length n =>
    rw [encoding?, emission, Emission.complete_length, decide_eq_true_eq,
      Option.ite_none_right_eq_some]
    refine and_congr_right fun hle ↦ ?_
    rw [Emission.bytes_length hle, Option.some_inj, eq_comm]
  | framedText s => exact frame?_eq_some_iff
  | framed b => exact frame?_eq_some_iff
  | nameList names =>
    rw [encoding?, emission, NameList.complete_emission_iff, Option.ite_none_right_eq_some]
    refine and_congr_right fun htravels ↦ ?_
    have hshort : (utf8 (NameList.join names)).length ≤ 0xffffffff := htravels.short
    rw [NameList.bytes_emission htravels, frame?, if_pos hshort, Option.some_inj, eq_comm]
  | value a =>
    rw [encoding?, emission, ← encode_eq_ok_iff]
    cases encode a <;> simp [Except.toOption]

end Operation

/-- A counter after operations, whatever came of them. -/
def Counter.after (c : Counter) (operations : List Operation) : Counter :=
  operations.foldl (fun c o ↦ (c.emit o.emission).1) c

/-- A buffer after operations, whatever came of them. -/
def Buffer.after (b : Buffer) (operations : List Operation) : Buffer :=
  operations.foldl (fun b o ↦ (b.emit o.emission).1) b

/-- **A run of operations keeps what one of them keeps.** -/
theorem Buffer.extends_after (b : Buffer) (operations : List Operation) :
    b.Extends (b.after operations) := by
  induction operations generalizing b with
  | nil => exact .refl b
  | cons o operations ih => exact (b.extends_emit o.emission).trans (ih _)

/-! ### The two passes -/

/-- What the next operation makes of a buffer over a piece of memory and of a counter. -/
structure Agreement (memory : Bytes) (b : Buffer) (c : Counter) (o : Operation) : Prop where
  /-- The counter refuses the operations that have no encoding, and no others. -/
  counted_iff : (c.emit o.emission).2 = true ↔ ∃ full, o.encoding? = some full
  /-- It counts the bytes of the encoding. -/
  count_eq : ∀ full, o.encoding? = some full →
    (c.emit o.emission).1.count = c.count + full.length
  /-- The buffer succeeds exactly if the counter does and there is room for what it has counted. -/
  written_iff : (b.emit o.emission).2 = true ↔ (c.emit o.emission).2 = true ∧
    (c.emit o.emission).1.count - c.count ≤ memory.length - b.position
  /-- A buffer that succeeds has moved on by what the counter has counted. -/
  advances : (b.emit o.emission).2 = true →
    (b.emit o.emission).1.position = b.position + ((c.emit o.emission).1.count - c.count)
  /-- It has written the encoding. -/
  writes : (b.emit o.emission).2 = true → ∃ full, o.encoding? = some full ∧
    (b.emit o.emission).1.written = b.written ++ full
  /-- A buffer that fails only for lack of room has written a proper front of the encoding. -/
  lacks_room : (c.emit o.emission).2 = true → (b.emit o.emission).2 = false →
    ∃ full front, o.encoding? = some full ∧ front <+: full ∧ front ≠ full ∧
      (b.emit o.emission).1.written = b.written ++ front
  /-- The position does not go back. -/
  position_le : b.position ≤ (b.emit o.emission).1.position
  /-- The position does not leave the memory. -/
  position_le_length : (b.emit o.emission).1.position ≤ memory.length
  /-- The memory stays as large as it is. -/
  length_contents : (b.emit o.emission).1.contents.length = memory.length
  /-- Bytes that have been written stay. -/
  take_contents : (b.emit o.emission).1.contents.take b.position = b.contents.take b.position
  /-- Bytes at and beyond the position are what they were at the start. -/
  drop_contents : (b.emit o.emission).1.contents.drop (b.emit o.emission).1.position =
    memory.drop (b.emit o.emission).1.position

/-- The two passes agree on any next operation, wherever the buffer has got to in its memory. The
counter may have counted anything before. -/
theorem Buffer.Extends.agreement {memory : Bytes} {b : Buffer} (h : (ofMemory memory).Extends b)
    (c : Counter) (o : Operation) : Agreement memory b c o := by
  obtain ⟨front, hfront, hle, hall, hemit⟩ := b.emit_spec o.emission
  have hroom : b.untouched.length = memory.length - b.position := h.length_untouched
  have hstep : b.Extends (b.emit o.emission).1 := b.extends_emit o.emission
  have hrun : (ofMemory memory).Extends (b.emit o.emission).1 := h.trans hstep
  have hmemory : (ofMemory memory).contents = memory := rfl
  have hcount : (c.emit o.emission).1.count = c.count + o.emission.size := by rw [c.emit_eq]
  have hcounted : (c.emit o.emission).2 = o.emission.complete := rfl
  have hwritten : (b.emit o.emission).2 = true ↔
      o.emission.complete = true ∧ o.emission.size ≤ b.untouched.length := by
    rw [hemit, decide_eq_true_eq]
  refine {
    counted_iff := ?_, count_eq := ?_, written_iff := ?_, advances := ?_, writes := ?_,
    lacks_room := ?_, position_le := hstep.position_le, position_le_length := ?_,
    length_contents := hrun.length_contents, take_contents := hstep.take_contents,
    drop_contents := hrun.drop_contents }
  · rw [hcounted]
    simp [Operation.encoding?_eq_some_iff]
  · intro full hfull
    obtain ⟨-, rfl⟩ := Operation.encoding?_eq_some_iff.1 hfull
    exact hcount
  · rw [hwritten, hcounted, hcount, Nat.add_sub_cancel_left, hroom]
  · intro hok
    obtain ⟨-, hfit⟩ := hwritten.1 hok
    rw [hemit, hcount, Nat.add_sub_cancel_left, hall.1 hfit]
    simp [position, Emission.size]
  · intro hok
    obtain ⟨hcomplete, hfit⟩ := hwritten.1 hok
    refine ⟨_, Operation.encoding?_eq_some_iff.2 ⟨hcomplete, rfl⟩, ?_⟩
    rw [hemit, hall.1 hfit]
  · intro hcomplete hfailed
    have hfit : ¬ o.emission.size ≤ b.untouched.length := fun hfit ↦ by
      rw [hwritten.2 ⟨hcomplete, hfit⟩] at hfailed
      cases hfailed
    refine ⟨_, front, Operation.encoding?_eq_some_iff.2 ⟨hcomplete, rfl⟩, hfront,
      fun he ↦ hfit (hall.2 he), ?_⟩
    rw [hemit]
  · rw [← hrun.length_contents.trans (congrArg List.length hmemory)]
    exact position_le_length_contents _

/-- **The second pass cannot fail where the first did not**, whatever the memory held: a buffer of
the counted size is filled to its end, and what it holds then is the encoding. -/
theorem encode_of_counted {α : Type} [Writable α] {a : α} {counter : Counter}
    (h : Counter.zero.emit (emission a) = (counter, true)) {memory : Bytes}
    (hlength : memory.length = counter.count) :
    ∃ buffer, (Buffer.ofMemory memory).emit (emission a) = (buffer, true) ∧
      buffer.untouched = [] ∧ encode a = .ok buffer.contents := by
  rw [Counter.emit_eq, Prod.mk.injEq] at h
  obtain ⟨rfl, hcomplete⟩ := h
  have huntouched : (Buffer.ofMemory memory).untouched.length = (emission a).size := by
    exact hlength.trans (Nat.zero_add _)
  obtain ⟨front, -, -, hall, hemit⟩ := (Buffer.ofMemory memory).emit_spec (emission a)
  have hfit : (emission a).size ≤ (Buffer.ofMemory memory).untouched.length := huntouched.ge
  have hdrop : (Buffer.ofMemory memory).untouched.drop front.length = [] := by
    rw [hall.1 hfit]
    exact List.drop_eq_nil_of_le huntouched.le
  rw [decide_eq_true ⟨hcomplete, hfit⟩, hdrop, hall.1 hfit] at hemit
  refine ⟨⟨(emission a).bytes, []⟩, hemit, rfl, encode_eq_ok_iff.2 ⟨hcomplete, ?_⟩⟩
  exact List.append_nil _

/-- **The counting pass and the writing pass agree.** After any operations on a counter and on a
buffer of any capacity, each continued after its failures, the two agree on every next operation.
In particular a value has no encoding only if it is refused while it is counted, and whatever the
memory of the counted size held, all of it is written. -/
theorem outputs_agree (memory : Bytes) (before : List Operation) :
    (∀ o, Agreement memory ((Buffer.ofMemory memory).after before) (Counter.zero.after before) o) ∧
      ∀ {α : Type} [Writable α] (a : α),
        ((∃ error, encode a = .error error) ↔ (Counter.zero.emit (emission a)).2 = false) ∧
          ∀ counter, Counter.zero.emit (emission a) = (counter, true) →
            memory.length = counter.count →
              ∃ buffer, (Buffer.ofMemory memory).emit (emission a) = (buffer, true) ∧
                buffer.untouched = [] ∧ encode a = .ok buffer.contents := by
  refine ⟨fun o ↦ ((Buffer.ofMemory memory).extends_after before).agreement _ o, fun a ↦ ⟨?_, ?_⟩⟩
  · show _ ↔ (emission a).complete = false
    rw [encode, Emission.toBytes_eq]
    split
    · rename_i hcomplete
      simp [hcomplete]
    · rename_i hcomplete
      simp [hcomplete]
  · intro counter hcounted hlength
    exact encode_of_counted hcounted hlength

/-- A name list that breaks off after its comma, and a byte that still finds room behind it. -/
theorem outputs_agree_small :
    let operations : List Operation := [.byte 1, .nameList ["a", "bc"]]
    let memory : Bytes := List.replicate 8 0xaa
    let b := (Buffer.ofMemory memory).after operations
    let c := Counter.zero.after operations
    b.contents = [1, 0, 0, 0, 4, 97, 44, 0xaa] ∧ b.position = 7 ∧ c.count = 9 ∧
      (b.emit (Operation.flag true).emission).2 = true ∧ Agreement memory b c (.flag true) := by
  intro operations memory b c
  exact ⟨by decide, by decide, by decide, by decide, (outputs_agree memory operations).1 _⟩

end SecureShell.Wire

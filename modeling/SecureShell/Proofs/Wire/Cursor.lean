import SecureShell.Proofs.Wire.Inversion

/-!
# Cursors: what is consumed

A byte string is read front to back by one reading after the other, each of which goes on where the
last one has left off, whether that one succeeded or not. This module says what every reading takes
and leaves at any such place (`readings_accounted`).

How many bytes a reading takes does not depend on what it makes of them. It depends on its `Extent`,
a number of bytes that is known beforehand or a frame, and on whether all of them are there: a
reader that `Spans` an extent takes a piece of it even if it refuses what stands there. So there are
two ways to fail (`Reading.Fails`). In all other cases the reading succeeds, on exactly the bytes
that spell its value.
-/

namespace SecureShell.Wire

variable {α β : Type}

/-! ### Extents -/

/-- How far a reading reaches. -/
inductive Extent where
  /-- A number of bytes. -/
  | fixed (width : ℕ)
  /-- A length field of four bytes, and as many bytes as it says. -/
  | framed

namespace Extent

/-- A piece of bytes reaches just so far. -/
def Holds : Extent → Bytes → Prop
  | fixed width, piece => piece.length = width
  | framed, piece => ∃ header body, piece = header ++ body ∧ header.length = 4 ∧
      body.length = ofBigEndian header

/-- An input ends before it reaches so far, and what is left of it then: all of it, unless a length
field is there, and only the bytes that it announces are not. -/
inductive Lacks : Extent → Bytes → Bytes → Prop
  /-- There are too few bytes. -/
  | width {width : ℕ} {input : Bytes} (short : input.length < width) :
    Lacks (fixed width) input input
  /-- The length field is cut off. -/
  | header {input : Bytes} (short : input.length < 4) : Lacks framed input input
  /-- The body is shorter than the length field says. -/
  | body {header body : Bytes} (whole : header.length = 4)
    (short : body.length < ofBigEndian header) : Lacks framed (header ++ body) body

theorem Lacks.of_fixed {width : ℕ} {input rest : Bytes} (h : (fixed width).Lacks input rest) :
    input.length < width ∧ rest = input := by
  obtain ⟨hshort⟩ := h
  exact ⟨hshort, rfl⟩

theorem Lacks.of_framed {input rest : Bytes} (h : framed.Lacks input rest) :
    input.length < 4 ∧ rest = input ∨
      ∃ header, input = header ++ rest ∧ header.length = 4 ∧ rest.length < ofBigEndian header := by
  cases h with
  | header hshort => exact Or.inl ⟨hshort, rfl⟩
  | @body header _ hwhole hshort => exact Or.inr ⟨header, rfl, hwhole, hshort⟩

theorem Lacks.suffix {e : Extent} {input rest : Bytes} (h : e.Lacks input rest) :
    rest <:+ input := by
  cases h with
  | width | header => exact List.suffix_refl _
  | body => exact List.suffix_append _ _

/-- An input is long enough or it is not. -/
theorem lacks_or_holds (e : Extent) (input : Bytes) :
    (∃ rest, e.Lacks input rest) ∨ ∃ piece rest, input = piece ++ rest ∧ e.Holds piece := by
  cases e with
  | fixed width =>
    rcases Nat.lt_or_ge input.length width with hshort | hle
    · exact Or.inl ⟨input, .width hshort⟩
    · exact Or.inr ⟨input.take width, input.drop width, (List.take_append_drop width input).symm,
        List.length_take_of_le hle⟩
  | framed =>
    rcases Nat.lt_or_ge input.length 4 with hshort | hle
    · exact Or.inl ⟨input, .header hshort⟩
    have hwhole : (input.take 4).length = 4 := List.length_take_of_le hle
    rcases Nat.lt_or_ge (input.drop 4).length (ofBigEndian (input.take 4)) with hshort | hle
    · have hlacks := Lacks.body hwhole hshort
      rw [List.take_append_drop] at hlacks
      exact Or.inl ⟨input.drop 4, hlacks⟩
    · refine Or.inr ⟨input.take 4 ++ (input.drop 4).take (ofBigEndian (input.take 4)),
        (input.drop 4).drop (ofBigEndian (input.take 4)), ?_, _, _, rfl, hwhole,
        List.length_take_of_le hle⟩
      rw [List.append_assoc, List.take_append_drop, List.take_append_drop]

end Extent

/-! ### Readers that span an extent -/

/-- A reader takes a piece of an extent, whatever it makes of the piece, and fails if the piece is
not all there. -/
structure Spans (r : Reader α) (e : Extent) : Prop where
  /-- What is left if bytes are lacking. -/
  of_lacks : ∀ {input rest}, e.Lacks input rest → r.run input = (none, rest)
  /-- What is left otherwise. -/
  of_holds : ∀ {piece}, e.Holds piece → ∀ rest, (r.run (piece ++ rest)).2 = rest

/-- A reader that takes nothing. -/
def Idle (r : Reader α) : Prop := ∀ input, (r.run input).2 = input

namespace Idle

theorem pure (a : α) : Idle (Pure.pure a : Reader α) := fun _ ↦ rfl

theorem fail : Idle (Reader.fail : Reader α) := fun _ ↦ rfl

theorem ofOption (o : Option α) : Idle (Reader.ofOption o) := by
  cases o with
  | none => exact fail
  | some a => exact pure a

theorem ite {p : Prop} [Decidable p] (a : α) :
    Idle (if p then Pure.pure a else Reader.fail : Reader α) := by
  split
  · exact pure a
  · exact fail

end Idle

namespace Spans

section

variable {r : Reader α} {e : Extent}

theorem left_eq (hr : Spans r e) {piece rest left : Bytes} {a : Option α} (hpiece : e.Holds piece)
    (h : r.run (piece ++ rest) = (a, left)) : left = rest :=
  (congrArg Prod.snd h).symm.trans (hr.of_holds hpiece rest)

/-- **Looking at a value takes no more bytes**, be the value refused or not. -/
theorem look {f : α → Reader β} (hr : Spans r e) (hf : ∀ a, Idle (f a)) :
    Spans (r >>= f) e where
  of_lacks h := Reader.run_bind_of_none (hr.of_lacks h)
  of_holds {piece} h rest := by
    rcases hrun : r.run (piece ++ rest) with ⟨- | a, left⟩
    · rw [Reader.run_bind_of_none hrun]
      exact hr.left_eq h hrun
    · rw [Reader.run_bind hrun, hf a left]
      exact hr.left_eq h hrun

theorem map {f : α → β} (hr : Spans r e) : Spans (r >>= fun a ↦ Pure.pure (f a)) e :=
  hr.look fun a ↦ .pure (f a)

end

theorem bytes (n : ℕ) : Spans (Reader.bytes n) (.fixed n) where
  of_lacks := by
    rintro _ _ ⟨hshort⟩
    exact if_neg (Nat.not_le.2 hshort)
  of_holds h rest := congrArg Prod.snd (Reads.bytes h rest)

theorem byte : Spans Reader.byte (.fixed 1) where
  of_lacks := by
    rintro input _ ⟨hshort⟩
    obtain rfl := List.length_eq_zero_iff.1 (Nat.lt_one_iff.1 hshort)
    rfl
  of_holds {piece} h rest := by
    obtain ⟨x, rfl⟩ := List.length_eq_one_iff.1 h
    rfl

theorem word : Spans Reader.word (.fixed 4) := (bytes 4).map

theorem length : Spans Reader.length (.fixed 4) := word.map

/-- **A length, and then as many bytes as it says.** If those are lacking the length has been taken
all the same. -/
theorem framed {r : ℕ → Reader α} (hr : ∀ n, Spans (r n) (.fixed n)) :
    Spans (Reader.length >>= r) .framed where
  of_lacks := by
    rintro _ rest (- | ⟨hshort⟩ | ⟨hwhole, hshort⟩)
    · exact Reader.run_bind_of_none (length.of_lacks (.width hshort))
    · rw [Reader.run_bind (reads_length_of_length_eq hwhole rest)]
      exact (hr _).of_lacks (.width hshort)
  of_holds := by
    rintro _ ⟨header, body, rfl, hwhole, hbody⟩ rest
    rw [List.append_assoc, Reader.run_bind (reads_length_of_length_eq hwhole (body ++ rest))]
    exact (hr _).of_holds hbody rest

theorem text (n : ℕ) : Spans (Reader.text n) (.fixed n) := (bytes n).look fun _ ↦ .ofOption _

theorem framedText : Spans Reader.framedText .framed := framed text

end Spans

/-! ### Readings -/

/-- What can be read next. Whether the end has been reached can be asked at any time as well, but
nothing is read for that. -/
inductive Reading where
  /-- A single byte. -/
  | byte
  /-- A 32 bit word. -/
  | word
  /-- A number of bytes. -/
  | bytes (n : ℕ)
  /-- As many bytes as a piece of memory holds, to take their place. -/
  | into (memory : Bytes)
  /-- A byte that has to be the given one. -/
  | expectByte (x : UInt8)
  /-- A truth value. -/
  | flag
  /-- A length. -/
  | length
  /-- A byte string after its length. -/
  | framed
  /-- A text of a number of bytes. -/
  | text (n : ℕ)
  /-- A text after its length. -/
  | framedText
  /-- A list of names. -/
  | nameList
  /-- A text after its length, which has to be the given one. -/
  | expectText (s : String)

namespace Reading

/-- The values that a reading gives. For a piece of memory it is what the memory holds then. -/
abbrev Value : Reading → Type
  | byte => UInt8
  | word => UInt32
  | bytes _ | into _ | framed => Bytes
  | expectByte _ | expectText _ => Unit
  | flag => Bool
  | length => ℕ
  | text _ | framedText => String
  | nameList => List String

/-- The reader of a reading. -/
def reader : (o : Reading) → Reader o.Value
  | byte => Reader.byte
  | word => Reader.word
  | bytes n => Reader.bytes n
  | into memory => Reader.bytes memory.length
  | expectByte x => Reader.expectByte x
  | flag => Reader.flag
  | length => Reader.length
  | framed => Reader.framed
  | text n => Reader.text n
  | framedText => Reader.framedText
  | nameList => Reader.nameList
  | expectText s => Reader.expectText s

/-- How far a reading reaches. -/
def extent : Reading → Extent
  | byte | expectByte _ | flag => .fixed 1
  | word | length => .fixed 4
  | bytes n | text n => .fixed n
  | into memory => .fixed memory.length
  | framed | framedText | nameList | expectText _ => .framed

/-- **The bytes of a value.** A piece of bytes is what the value of a reading is read from. It is a
matter of the value alone: no reader takes part in it. -/
def Spells : (o : Reading) → o.Value → Bytes → Prop
  | byte, x, piece => piece = [x]
  | word, x, piece => piece = bigEndian 4 x.toNat
  | bytes n, b, piece => piece = b ∧ b.length = n
  | into memory, b, piece => piece = b ∧ b.length = memory.length
  | expectByte x, _, piece => piece = [x]
  | flag, b, piece => ∃ x : UInt8, piece = [x] ∧ b = (x != 0)
  | length, n, piece => n ≤ 0xffffffff ∧ piece = bigEndian 4 n
  | framed, b, piece => b.length ≤ 0xffffffff ∧ piece = bigEndian 4 b.length ++ b
  | text n, s, piece => piece = utf8 s ∧ (utf8 s).length = n
  | framedText, s, piece | expectText s, _, piece =>
    (utf8 s).length ≤ 0xffffffff ∧ piece = bigEndian 4 (utf8 s).length ++ utf8 s
  | nameList, names, piece => NameList.Travels names ∧
    piece = bigEndian 4 (utf8 (NameList.join names)).length ++ utf8 (NameList.join names)

/-- The readings that refuse nothing: they fail for want of bytes only. -/
def isPrimitive : Reading → Bool
  | byte | word | bytes _ | into _ | flag | length => true
  | expectByte _ | framed | text _ | framedText | nameList | expectText _ => false

variable {o : Reading} {input rest piece : Bytes}

theorem spans (o : Reading) : Spans o.reader o.extent := by
  cases o with
  | byte => exact Spans.byte
  | word => exact Spans.word
  | bytes n => exact Spans.bytes n
  | into memory => exact Spans.bytes memory.length
  | expectByte x => exact Spans.byte.look fun _ ↦ .ite ()
  | flag => exact Spans.byte.map
  | length => exact Spans.length
  | framed => exact Spans.framed Spans.bytes
  | text n => exact Spans.text n
  | framedText => exact Spans.framedText
  | nameList => exact Spans.framedText.look fun _ ↦ .ofOption _
  | expectText s => exact Spans.framedText.look fun _ ↦ .ite ()

theorem selfDelimiting (o : Reading) : SelfDelimiting o.reader := by
  cases o with
  | byte => exact SelfDelimiting.byte
  | word => exact SelfDelimiting.word
  | bytes n => exact SelfDelimiting.bytes n
  | into memory => exact SelfDelimiting.bytes memory.length
  | expectByte x => exact SelfDelimiting.expectByte x
  | flag => exact SelfDelimiting.flag
  | length => exact SelfDelimiting.length
  | framed => exact SelfDelimiting.framed
  | text n => exact SelfDelimiting.text n
  | framedText => exact SelfDelimiting.framedText
  | nameList => exact SelfDelimiting.nameList
  | expectText s => exact SelfDelimiting.expectText s

/-- **A reading takes for a value exactly the bytes of the value.** -/
theorem reads_iff {v : o.Value} : Reads o.reader piece v ↔ o.Spells v piece := by
  cases o with
  | byte => exact reads_byte_iff
  | word => exact reads_word_iff
  | bytes n => exact reads_bytes_iff
  | into memory => exact reads_bytes_iff
  | expectByte x => exact reads_expectByte_iff
  | flag => exact reads_flag_iff
  | length => exact reads_length_iff
  | framed => exact reads_framed_iff
  | text n => exact reads_text_iff
  | framedText => exact reads_framedText_iff
  | nameList =>
    refine reads_nameList_iff.trans (and_congr_right fun htravels ↦ ?_)
    rw [NameList.bytes_emission htravels]
  | expectText s => exact reads_expectText_iff.trans reads_framedText_iff

/-- Any bytes that are enough for a primitive reading are read. -/
theorem exists_reads (hprimitive : o.isPrimitive = true) (hpiece : o.extent.Holds piece) :
    ∃ v, Reads o.reader piece v := by
  cases o with
  | byte =>
    obtain ⟨x, rfl⟩ := List.length_eq_one_iff.1 hpiece
    exact ⟨x, Reads.byte x⟩
  | word => exact ⟨_, (Reads.bytes hpiece).map⟩
  | bytes n => exact ⟨piece, Reads.bytes hpiece⟩
  | into memory => exact ⟨piece, Reads.bytes hpiece⟩
  | flag =>
    obtain ⟨x, rfl⟩ := List.length_eq_one_iff.1 hpiece
    exact ⟨_, (Reads.byte x).map⟩
  | length => exact ⟨_, reads_length_of_length_eq hpiece⟩
  | expectByte | framed | text | framedText | nameList | expectText => cases hprimitive

/-! ### What one reading leaves -/

/-- The value of a reading, if it succeeds. -/
def value? (o : Reading) (input : Bytes) : Option o.Value := (o.reader.run input).1

/-- What a reading leaves of an input, whatever comes of it. -/
def left (o : Reading) (input : Bytes) : Bytes := (o.reader.run input).2

/-- The bytes that a reading takes from the front of an input. -/
def taken (o : Reading) (input : Bytes) : Bytes :=
  input.take (input.length - (o.left input).length)

/-- **The ways to fail**, with what is left. Bytes are lacking, or they are all there and taken, but
spell no value. -/
def Fails (o : Reading) (input rest : Bytes) : Prop :=
  o.extent.Lacks input rest ∨
    ∃ piece, input = piece ++ rest ∧ o.extent.Holds piece ∧ ∀ v, ¬o.Spells v piece

/-- **When a reading succeeds**, and what it leaves then. -/
theorem run_eq_some_iff {v : o.Value} :
    o.reader.run input = (some v, rest) ↔ ∃ piece, input = piece ++ rest ∧ o.Spells v piece := by
  rw [o.selfDelimiting.run_eq_some_iff]
  simp only [reads_iff]

/-- **When a reading fails**, and what it leaves then. -/
theorem run_eq_none_iff : o.reader.run input = (none, rest) ↔ o.Fails input rest := by
  constructor
  · intro h
    obtain ⟨left, hlacks⟩ | ⟨piece, left, rfl, hpiece⟩ := o.extent.lacks_or_holds input
    · obtain ⟨-, rfl⟩ := Prod.mk.inj (((spans o).of_lacks hlacks).symm.trans h)
      exact Or.inl hlacks
    · obtain rfl : rest = left := (spans o).left_eq hpiece h
      -- A value that the piece spelled would have been read.
      refine Or.inr ⟨piece, rfl, hpiece, fun v hv ↦ ?_⟩
      have hsome : o.reader.run (piece ++ rest) = (some v, rest) :=
        run_eq_some_iff.2 ⟨piece, rfl, hv⟩
      cases h.symm.trans hsome
  · rintro (hlacks | ⟨piece, rfl, hpiece, hnone⟩)
    · exact (spans o).of_lacks hlacks
    · -- The extent has settled what is left, and a value would be spelled by just this piece.
      rcases hrun : o.reader.run (piece ++ rest) with ⟨- | v, left⟩
      · rw [(spans o).left_eq hpiece hrun]
      · obtain rfl : left = rest := (spans o).left_eq hpiece hrun
        obtain ⟨spelled, hsame, hv⟩ := run_eq_some_iff.1 hrun
        exact absurd (List.append_cancel_right hsame ▸ hv) (hnone v)

theorem fails_of_value?_eq_none (h : o.value? input = none) : o.Fails input (o.left input) :=
  run_eq_none_iff.1 (Prod.ext h rfl)

/-- **The cursor moves forward over its input and never leaves it.** -/
theorem left_suffix (o : Reading) (input : Bytes) : o.left input <:+ input := by
  rcases hvalue : o.value? input with - | v
  · obtain hlacks | ⟨piece, hinput, -⟩ := fails_of_value?_eq_none hvalue
    · exact hlacks.suffix
    · exact ⟨piece, hinput.symm⟩
  · obtain ⟨piece, hinput, -⟩ := run_eq_some_iff.1 (Prod.ext hvalue rfl)
    exact ⟨piece, hinput.symm⟩

theorem taken_append_left (o : Reading) (input : Bytes) :
    o.taken input ++ o.left input = input :=
  List.suffix_iff_eq_append.1 (o.left_suffix input)

theorem taken_eq (h : input = piece ++ o.left input) : o.taken input = piece :=
  List.append_cancel_right ((o.taken_append_left input).trans h)

theorem taken_eq_nil (h : o.left input = input) : o.taken input = [] := by
  rw [taken, h, Nat.sub_self, List.take_zero]

/-- A reading that succeeds has taken the bytes of its value. -/
theorem spells_taken {v : o.Value} (h : o.value? input = some v) : o.Spells v (o.taken input) := by
  obtain ⟨piece, hinput, hv⟩ := run_eq_some_iff.1 (Prod.ext h rfl)
  rwa [taken_eq hinput]

/-- No primitive reading is a frame. -/
theorem exists_width (hprimitive : o.isPrimitive = true) : ∃ width, o.extent = .fixed width := by
  cases o with
  | byte | word | bytes | into | flag | length => exact ⟨_, rfl⟩
  | expectByte | framed | text | framedText | nameList | expectText => cases hprimitive

/-- A primitive reading that fails has taken nothing. -/
theorem taken_of_primitive (hprimitive : o.isPrimitive = true) (h : o.value? input = none) :
    o.taken input = [] := by
  obtain hlacks | ⟨piece, -, hpiece, hnone⟩ := fails_of_value?_eq_none h
  · obtain ⟨width, hextent⟩ := exists_width hprimitive
    rw [hextent] at hlacks
    exact taken_eq_nil hlacks.of_fixed.2
  · obtain ⟨v, hv⟩ := exists_reads hprimitive hpiece
    exact absurd (reads_iff.1 hv) (hnone v)

/-- A frame that fails has taken all, some or nothing of what it announces. -/
theorem taken_of_framed (hframed : o.extent = .framed) (h : o.value? input = none) :
    input.length < 4 ∧ o.taken input = [] ∨
      (o.taken input).length = 4 ∧ (o.left input).length < ofBigEndian (o.taken input) ∨
      ∃ header body, o.taken input = header ++ body ∧ header.length = 4 ∧
        body.length = ofBigEndian header ∧ ∀ v, ¬o.Spells v (header ++ body) := by
  obtain hlacks | ⟨piece, hinput, hpiece, hnone⟩ := fails_of_value?_eq_none h
  · rw [hframed] at hlacks
    obtain ⟨hshort, hleft⟩ | ⟨header, hinput, hwhole, hshort⟩ := hlacks.of_framed
    · exact Or.inl ⟨hshort, taken_eq_nil hleft⟩
    · rw [taken_eq hinput]
      exact Or.inr (Or.inl ⟨hwhole, hshort⟩)
  · rw [hframed] at hpiece
    obtain ⟨header, body, rfl, hwhole, hbody⟩ := hpiece
    exact Or.inr (Or.inr ⟨header, body, taken_eq hinput, hwhole, hbody, hnone⟩)

theorem taken_of_expectByte {x : UInt8} (h : (expectByte x).value? input = none) :
    input = [] ∧ (expectByte x).taken input = [] ∨
      ∃ y, y ≠ x ∧ (expectByte x).taken input = [y] := by
  obtain hlacks | ⟨piece, hinput, hpiece, hnone⟩ := fails_of_value?_eq_none h
  · obtain ⟨hshort, hleft⟩ := hlacks.of_fixed
    exact Or.inl ⟨List.length_eq_zero_iff.1 (Nat.lt_one_iff.1 hshort), taken_eq_nil hleft⟩
  · obtain ⟨y, rfl⟩ := List.length_eq_one_iff.1 hpiece
    refine Or.inr ⟨y, ?_, taken_eq hinput⟩
    rintro rfl
    exact hnone () rfl

end Reading

/-- What a reading makes of an input. -/
structure Account (o : Reading) (input : Bytes) : Prop where
  /-- What is left is an end of the input. -/
  suffix : o.left input <:+ input
  /-- The reading succeeds where the bytes of a value stand in front, and leaves what follows. -/
  succeeds_iff : ∀ v rest, o.reader.run input = (some v, rest) ↔
    ∃ piece, input = piece ++ rest ∧ o.Spells v piece
  /-- Then it has taken the bytes of the value. -/
  of_success : ∀ v, o.value? input = some v → o.Spells v (o.taken input)
  /-- It fails where bytes are lacking or spell no value. -/
  fails_iff : ∀ rest, o.reader.run input = (none, rest) ↔ o.Fails input rest
  /-- A primitive reading that fails has taken nothing. -/
  of_primitive : o.isPrimitive = true → o.value? input = none → o.taken input = []
  /-- A frame that fails has taken nothing if the length field is cut off, the length field if the
  body is shorter than that says, and the length field and the body if what they hold is refused. -/
  of_framed : o.extent = .framed → o.value? input = none →
    input.length < 4 ∧ o.taken input = [] ∨
    (o.taken input).length = 4 ∧ (o.left input).length < ofBigEndian (o.taken input) ∨
    ∃ header body, o.taken input = header ++ body ∧ header.length = 4 ∧
      body.length = ofBigEndian header ∧ ∀ v, ¬o.Spells v (header ++ body)
  /-- A byte that is not the one that was expected has been taken all the same. -/
  of_expectByte : ∀ x, o = .expectByte x → o.value? input = none →
    input = [] ∧ o.taken input = [] ∨ ∃ y, y ≠ x ∧ o.taken input = [y]

theorem Reading.account (o : Reading) (input : Bytes) : Account o input where
  suffix := o.left_suffix input
  succeeds_iff _ _ := run_eq_some_iff
  of_success _ := spells_taken
  fails_iff _ := run_eq_none_iff
  of_primitive := taken_of_primitive
  of_framed := taken_of_framed
  of_expectByte := by
    rintro x rfl
    exact taken_of_expectByte

/-! ### Readings one after the other -/

/-- What is left after readings, each continued where the one before it has left off, whatever came
of that. -/
def leftAfter (input : Bytes) (readings : List Reading) : Bytes :=
  readings.foldl (fun rest o ↦ o.left rest) input

/-- What each of the readings has taken. -/
def pieces (input : Bytes) : List Reading → List Bytes
  | [] => []
  | o :: readings => o.taken input :: pieces (o.left input) readings

/-- **Nothing is skipped and nothing is read twice.** What has been taken, in order, and what is
left make up the input. -/
theorem flatten_pieces_append_leftAfter (input : Bytes) (readings : List Reading) :
    (pieces input readings).flatten ++ leftAfter input readings = input := by
  induction readings generalizing input with
  | nil => rfl
  | cons o readings ih =>
    have hrest : (pieces (o.left input) readings).flatten ++ leftAfter input (o :: readings) =
        o.left input := ih (o.left input)
    rw [pieces, List.flatten_cons, List.append_assoc, hrest, o.taken_append_left]

/-- **The account of a cursor.** After any readings of any input, each continued after its failures,
what has been taken and what is left make up the input, and what the next reading takes is known: on
success the bytes of its value, on failure nothing, the length field, or the whole of what was there
to be refused. -/
theorem readings_accounted (input : Bytes) (before : List Reading) :
    (pieces input before).flatten ++ leftAfter input before = input ∧
      ∀ o, Account o (leftAfter input before) :=
  ⟨flatten_pieces_append_leftAfter input before, fun o ↦ o.account _⟩

/-- A name list whose length field says too much, more bytes than there can be, a byte that is not
the expected one, and a name list with an empty name. -/
example :
    pieces [0, 0, 0, 9, 97, 0, 0, 0, 2, 97, 44, 7]
      [.nameList, .bytes (2 ^ 64 - 1), .expectByte 98, .nameList, .word] =
    [[0, 0, 0, 9], [], [97], [0, 0, 0, 2, 97, 44], []] := by
  decide

end SecureShell.Wire

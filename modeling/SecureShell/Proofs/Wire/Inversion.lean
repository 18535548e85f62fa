import SecureShell.Proofs.Wire.Reader

/-!
# Readers: what they took

The converse of `Reads`. A reader is `SelfDelimiting` if a run that succeeds took some bytes that
it takes whatever stands after them; so the value alone says where it ends. All readers of the wire
are, for the reason that the primitive ones are and that putting readers together keeps it
(`SelfDelimiting.bind`).

For such readers `Reads` can be taken apart as it was put together (`reads_bind_iff`), and each
field gets one equation for the bytes that it accepts. Reading a whole input is then no case of its
own: it accepts what the reader takes (`SelfDelimiting.all?_eq_some_iff`).
-/

namespace SecureShell.Wire

variable {α β : Type}

/-- A run that succeeds took bytes that are taken whatever stands after them. -/
def SelfDelimiting (r : Reader α) : Prop :=
  ∀ input a rest, r.run input = (some a, rest) → ∃ b, input = b ++ rest ∧ Reads r b a

/-! ### Runs taken apart -/

/-- A compound reader that succeeds did so in both of its parts. -/
theorem Reader.exists_of_run_bind {r : Reader α} {f : α → Reader β} {input rest : Bytes} {y : β}
    (h : (r >>= f).run input = (some y, rest)) :
    ∃ a mid, r.run input = (some a, mid) ∧ (f a).run mid = (some y, rest) := by
  rcases hr : r.run input with ⟨- | a, mid⟩
  · have hr' : r input = (none, mid) := hr
    simp [Reader.run, Bind.bind, hr'] at h
  · rw [Reader.run_bind hr] at h
    exact ⟨a, mid, rfl, h⟩

/-- The value of a whole input comes from a run that leaves nothing. -/
theorem Reader.run_of_all?_eq_some {r : Reader α} {b : Bytes} {a : α} (h : r.all? b = some a) :
    r.run b = (some a, []) := by
  have hrun : ((r >>= fun x ↦ Reader.atEnd >>= fun _ ↦ Pure.pure x).run b).1 = some a := h
  obtain ⟨x, mid, hr, hrest⟩ := Reader.exists_of_run_bind (Prod.ext hrun rfl)
  obtain ⟨u, rest, hend, hx⟩ := Reader.exists_of_run_bind hrest
  rcases mid with - | ⟨byte, mid⟩
  · obtain rfl : x = a := Option.some.inj (congrArg Prod.fst hx)
    exact hr
  · -- A byte is left, and the end of the input is not reached.
    cases hend

namespace SelfDelimiting

/-- **What a reader that is self-delimiting gives at the front of an input.** -/
theorem run_eq_some_iff {r : Reader α} (hr : SelfDelimiting r) {input rest : Bytes} {a : α} :
    r.run input = (some a, rest) ↔ ∃ b, input = b ++ rest ∧ Reads r b a := by
  refine ⟨hr input a rest, ?_⟩
  rintro ⟨b, rfl, hb⟩
  exact hb rest

/-- **A reader that is self-delimiting accepts as a whole input exactly what it takes.** -/
theorem all?_eq_some_iff {r : Reader α} (hr : SelfDelimiting r) {b : Bytes} {a : α} :
    r.all? b = some a ↔ Reads r b a := by
  refine ⟨fun h ↦ ?_, Reads.all?_eq⟩
  obtain ⟨c, rfl, hc⟩ := hr b a [] (Reader.run_of_all?_eq_some h)
  rwa [List.append_nil]

/-! ### Putting readers together -/

theorem pure (a : α) : SelfDelimiting (Pure.pure a : Reader α) := by
  rintro input x rest h
  obtain ⟨hx, hrest⟩ := Prod.mk.inj h
  obtain rfl := Option.some.inj hx
  exact ⟨[], hrest, Reads.pure a⟩

theorem fail : SelfDelimiting (Reader.fail : Reader α) := by
  intro input a rest h
  cases h

theorem ofOption (o : Option α) : SelfDelimiting (Reader.ofOption o) := by
  cases o with
  | none => exact fail
  | some a => exact pure a

/-- A value that is made from a fact, if there is one. -/
theorem dite {p : Prop} [Decidable p] (f : p → α) :
    SelfDelimiting (if h : p then Pure.pure (f h) else Reader.fail) := by
  split
  · exact pure _
  · exact fail

/-- **Fields that are self-delimiting make up a reader that is.** -/
theorem bind {r : Reader α} {f : α → Reader β} (hr : SelfDelimiting r)
    (hf : ∀ a, SelfDelimiting (f a)) : SelfDelimiting (r >>= f) := by
  intro input y rest h
  obtain ⟨a, mid, hfirst, hsecond⟩ := Reader.exists_of_run_bind h
  obtain ⟨b, rfl, hb⟩ := hr input a mid hfirst
  obtain ⟨c, rfl, hc⟩ := hf a mid y rest hsecond
  exact ⟨b ++ c, (List.append_assoc b c rest).symm, hb.bind hc⟩

theorem map {r : Reader α} {f : α → β} (hr : SelfDelimiting r) :
    SelfDelimiting (r >>= fun a ↦ Pure.pure (f a)) :=
  hr.bind fun a ↦ pure (f a)

/-! ### Fields -/

theorem byte : SelfDelimiting Reader.byte := by
  intro input x rest h
  rcases input with - | ⟨y, input⟩
  · cases h
  · obtain ⟨hx, rfl⟩ := Prod.mk.inj h
    obtain rfl := Option.some.inj hx
    exact ⟨[y], rfl, Reads.byte y⟩

theorem bytes (n : ℕ) : SelfDelimiting (Reader.bytes n) := by
  intro input c rest h
  have hrun : (if n ≤ input.length then (some (input.take n), input.drop n)
    else (none, input)) = (some c, rest) := h
  split at hrun
  · rename_i hn
    obtain ⟨hc, rfl⟩ := Prod.mk.inj hrun
    obtain rfl := Option.some.inj hc
    exact ⟨input.take n, (List.take_append_drop n input).symm, Reads.bytes (by simpa using hn)⟩
  · cases hrun

theorem expectByte (x : UInt8) : SelfDelimiting (Reader.expectByte x) := by
  refine bind byte fun y ↦ ?_
  split
  · exact pure ()
  · exact fail

theorem word : SelfDelimiting Reader.word := (bytes 4).map

theorem flag : SelfDelimiting Reader.flag := byte.map

theorem length : SelfDelimiting Reader.length := word.map

theorem framed : SelfDelimiting Reader.framed := length.bind bytes

theorem text (n : ℕ) : SelfDelimiting (Reader.text n) := (bytes n).bind fun _ ↦ ofOption _

theorem framedText : SelfDelimiting Reader.framedText := length.bind text

theorem nameList : SelfDelimiting Reader.nameList := framedText.bind fun _ ↦ ofOption _

theorem expectText (s : String) : SelfDelimiting (Reader.expectText s) := by
  refine bind framedText fun t ↦ ?_
  split
  · exact pure ()
  · exact fail

/-- A frame is self-delimiting whatever stands in it. -/
theorem framedBy (r : Reader α) : SelfDelimiting (Reader.framedBy r) :=
  framed.bind fun _ ↦ ofOption _

end SelfDelimiting

/-! ### What each field accepts -/

section Accepted

variable {b : Bytes}

theorem reads_pure_iff {a x : α} : Reads (Pure.pure a : Reader α) b x ↔ b = [] ∧ x = a := by
  constructor
  · intro h
    obtain ⟨hx, hb⟩ := Prod.mk.inj h.run_eq
    exact ⟨hb, (Option.some.inj hx).symm⟩
  · rintro ⟨rfl, rfl⟩
    exact Reads.pure x

theorem not_reads_fail {a : α} : ¬Reads (Reader.fail : Reader α) b a := fun h ↦ by
  cases h.run_eq

theorem reads_ofOption_iff {o : Option α} {a : α} :
    Reads (Reader.ofOption o) b a ↔ b = [] ∧ o = some a := by
  cases o with
  | none => exact ⟨fun h ↦ absurd h not_reads_fail, fun h ↦ by cases h.2⟩
  | some x =>
    rw [Option.some_inj, eq_comm (a := x)]
    exact reads_pure_iff

theorem reads_dite_iff {p : Prop} [Decidable p] {f : p → α} {a : α} :
    Reads (if h : p then Pure.pure (f h) else Reader.fail) b a ↔ b = [] ∧ ∃ h, a = f h := by
  split
  · rename_i hp
    rw [reads_pure_iff, exists_prop_of_true hp]
  · rename_i hp
    exact ⟨fun h ↦ absurd h not_reads_fail, fun ⟨_, h, _⟩ ↦ absurd h hp⟩

/-- **The bytes of a compound reader are those of its parts.** -/
theorem reads_bind_iff {r : Reader α} {f : α → Reader β} (hr : SelfDelimiting r) {y : β} :
    Reads (r >>= f) b y ↔ ∃ a c d, b = c ++ d ∧ Reads r c a ∧ Reads (f a) d y := by
  constructor
  · intro h
    obtain ⟨a, d, hfirst, -⟩ := Reader.exists_of_run_bind h.run_eq
    obtain ⟨c, rfl, hc⟩ := hr b a d hfirst
    refine ⟨a, c, d, rfl, hc, fun rest ↦ ?_⟩
    -- The first part takes the same bytes before any rest, so the second part starts at `d`.
    have hall := h rest
    rwa [List.append_assoc, Reader.run_bind (hc (d ++ rest))] at hall
  · rintro ⟨a, c, d, rfl, hc, hd⟩
    exact hc.bind hd

theorem reads_map_iff {r : Reader α} {f : α → β} (hr : SelfDelimiting r) {y : β} :
    Reads (r >>= fun a ↦ Pure.pure (f a)) b y ↔ ∃ a, Reads r b a ∧ y = f a := by
  rw [reads_bind_iff hr]
  constructor
  · rintro ⟨a, c, d, rfl, hc, hd⟩
    obtain ⟨rfl, rfl⟩ := reads_pure_iff.1 hd
    exact ⟨a, by rwa [List.append_nil], rfl⟩
  · rintro ⟨a, ha, rfl⟩
    exact ⟨a, b, [], (List.append_nil b).symm, ha, Reads.pure (f a)⟩

theorem reads_bind_ofOption_iff {r : Reader α} {f : α → Option β} (hr : SelfDelimiting r) {y : β} :
    Reads (r >>= fun a ↦ Reader.ofOption (f a)) b y ↔ ∃ a, Reads r b a ∧ f a = some y := by
  rw [reads_bind_iff hr]
  constructor
  · rintro ⟨a, c, d, rfl, hc, hd⟩
    obtain ⟨rfl, hf⟩ := reads_ofOption_iff.1 hd
    exact ⟨a, by rwa [List.append_nil], hf⟩
  · rintro ⟨a, ha, hf⟩
    exact ⟨a, b, [], (List.append_nil b).symm, ha, reads_ofOption_iff.2 ⟨rfl, hf⟩⟩

theorem reads_byte_iff {x : UInt8} : Reads Reader.byte b x ↔ b = [x] := by
  constructor
  · intro h
    have hrun := h.run_eq
    rcases b with - | ⟨y, b⟩
    · cases hrun
    · obtain ⟨hx, rfl⟩ := Prod.mk.inj hrun
      rw [Option.some.inj hx]
  · rintro rfl
    exact Reads.byte x

theorem reads_bytes_iff {n : ℕ} {c : Bytes} :
    Reads (Reader.bytes n) b c ↔ b = c ∧ c.length = n := by
  constructor
  · intro h
    have hrun : (if n ≤ b.length then (some (b.take n), b.drop n) else (none, b)) = (some c, []) :=
      h.run_eq
    split at hrun
    · rename_i hn
      obtain ⟨hc, hrest⟩ := Prod.mk.inj hrun
      obtain rfl := Option.some.inj hc
      rw [List.drop_eq_nil_iff] at hrest
      exact ⟨(List.take_of_length_le hrest).symm, by simpa using hn⟩
    · cases hrun
  · rintro ⟨rfl, rfl⟩
    exact Reads.bytes rfl

/-- Every four bytes are a word, and a word is four bytes only. -/
theorem reads_word_iff {x : UInt32} : Reads Reader.word b x ↔ b = bigEndian 4 x.toNat := by
  refine ⟨fun h ↦ ?_, fun h ↦ h ▸ Reads.word x⟩
  obtain ⟨c, hc, rfl⟩ := (reads_map_iff (SelfDelimiting.bytes 4)).1 h
  obtain ⟨rfl, hlength⟩ := reads_bytes_iff.1 hc
  have hlt : ofBigEndian b < 2 ^ 32 := by
    have hwidth := ofBigEndian_lt b
    rw [hlength] at hwidth
    exact hwidth
  rw [UInt32.toNat_ofNat_of_lt' hlt, ← hlength, bigEndian_ofBigEndian]

/-- Any byte is a truth value, and all bytes but zero are true. -/
theorem reads_flag_iff {v : Bool} : Reads Reader.flag b v ↔ ∃ x, b = [x] ∧ v = (x != 0) := by
  rw [Reader.flag, reads_map_iff SelfDelimiting.byte]
  simp only [reads_byte_iff]

theorem reads_length_iff {n : ℕ} :
    Reads Reader.length b n ↔ n ≤ 0xffffffff ∧ b = bigEndian 4 n := by
  refine ⟨fun h ↦ ?_, fun ⟨hn, hb⟩ ↦ hb ▸ Reads.length hn⟩
  obtain ⟨x, hx, rfl⟩ := (reads_map_iff SelfDelimiting.word).1 h
  exact ⟨Nat.le_of_lt_succ x.toNat_lt, reads_word_iff.1 hx⟩

/-- Any four bytes are a length. -/
theorem reads_length_of_length_eq (h : b.length = 4) :
    Reads Reader.length b (ofBigEndian b) := by
  have hlt : ofBigEndian b < 256 ^ 4 := h ▸ ofBigEndian_lt b
  have hb : bigEndian 4 (ofBigEndian b) = b := h ▸ bigEndian_ofBigEndian b
  exact reads_length_iff.2 ⟨Nat.le_of_lt_succ hlt, hb.symm⟩

/-- **A frame is a length and as many bytes.** -/
theorem reads_framed_iff {c : Bytes} :
    Reads Reader.framed b c ↔ c.length ≤ 0xffffffff ∧ b = bigEndian 4 c.length ++ c := by
  rw [Reader.framed, reads_bind_iff SelfDelimiting.length]
  constructor
  · rintro ⟨n, lengthBytes, body, rfl, hn, hbody⟩
    obtain ⟨hle, rfl⟩ := reads_length_iff.1 hn
    obtain ⟨rfl, rfl⟩ := reads_bytes_iff.1 hbody
    exact ⟨hle, rfl⟩
  · rintro ⟨hle, rfl⟩
    exact ⟨c.length, _, c, rfl, Reads.length hle, Reads.bytes rfl⟩

theorem reads_text_iff {n : ℕ} {s : String} :
    Reads (Reader.text n) b s ↔ b = utf8 s ∧ (utf8 s).length = n := by
  refine ⟨fun h ↦ ?_, fun ⟨hb, hn⟩ ↦ hb ▸ Reads.text hn⟩
  obtain ⟨c, hc, hs⟩ := (reads_bind_ofOption_iff (SelfDelimiting.bytes n)).1 h
  obtain ⟨rfl, hlength⟩ := reads_bytes_iff.1 hc
  rw [utf8_of_ofUtf8? hs]
  exact ⟨rfl, hlength⟩

/-- **A framed text is the frame of its UTF-8 bytes.** -/
theorem reads_framedText_iff {s : String} :
    Reads Reader.framedText b s ↔
      (utf8 s).length ≤ 0xffffffff ∧ b = bigEndian 4 (utf8 s).length ++ utf8 s := by
  refine ⟨fun h ↦ ?_, fun ⟨hle, hb⟩ ↦ hb ▸ Reads.framedText hle⟩
  obtain ⟨n, lengthBytes, body, rfl, hn, hbody⟩ := (reads_bind_iff SelfDelimiting.length).1 h
  obtain ⟨hle, rfl⟩ := reads_length_iff.1 hn
  obtain ⟨rfl, rfl⟩ := reads_text_iff.1 hbody
  exact ⟨hle, rfl⟩

/-- **A name list is read from what is written of it and from nothing else.** -/
theorem reads_nameList_iff {names : List String} :
    Reads Reader.nameList b names ↔
      NameList.Travels names ∧ b = (NameList.emission names).bytes := by
  refine ⟨fun h ↦ ?_, fun ⟨htravels, hb⟩ ↦ hb ▸ Reads.nameList htravels⟩
  obtain ⟨s, hs, hparse⟩ := (reads_bind_ofOption_iff SelfDelimiting.framedText).1 h
  obtain ⟨hle, rfl⟩ := reads_framedText_iff.1 hs
  obtain ⟨hlist, rfl⟩ := NameList.parse?_eq_some_iff.1 hparse
  have htravels : NameList.Travels names :=
    ⟨fun name hn ↦ (NameList.isListable_iff.1 (hlist name hn)).1,
      fun name hn ↦ (NameList.isListable_iff.1 (hlist name hn)).2, hle⟩
  exact ⟨htravels, (NameList.bytes_emission htravels).symm⟩

theorem reads_expectByte_iff {x : UInt8} {u : Unit} :
    Reads (Reader.expectByte x) b u ↔ b = [x] := by
  refine ⟨fun h ↦ ?_, fun h ↦ h ▸ Reads.expectByte x⟩
  obtain ⟨y, c, d, rfl, hc, hd⟩ := (reads_bind_iff SelfDelimiting.byte).1 h
  obtain rfl := reads_byte_iff.1 hc
  split at hd
  · rename_i hy
    obtain ⟨rfl, -⟩ := reads_pure_iff.1 hd
    rw [hy, List.append_nil]
  · exact absurd hd not_reads_fail

theorem reads_expectText_iff {s : String} {u : Unit} :
    Reads (Reader.expectText s) b u ↔ Reads Reader.framedText b s := by
  rw [Reader.expectText, reads_bind_iff SelfDelimiting.framedText]
  constructor
  · rintro ⟨t, c, d, rfl, hc, hd⟩
    split at hd
    · rename_i ht
      obtain ⟨rfl, -⟩ := reads_pure_iff.1 hd
      rwa [List.append_nil, ← ht]
    · exact absurd hd not_reads_fail
  · intro h
    refine ⟨s, b, [], (List.append_nil b).symm, h, ?_⟩
    rw [if_pos rfl]
    exact Reads.pure u

/-- What fills a frame is all that the inner reader takes. -/
theorem reads_framedBy_iff {r : Reader α} (hr : SelfDelimiting r) {a : α} :
    Reads (Reader.framedBy r) b a ↔
      ∃ c, c.length ≤ 0xffffffff ∧ b = bigEndian 4 c.length ++ c ∧ Reads r c a := by
  rw [Reader.framedBy, reads_bind_ofOption_iff SelfDelimiting.framed]
  simp only [reads_framed_iff, hr.all?_eq_some_iff, and_assoc]

end Accepted

/-! ### Whole inputs and payloads -/

section Whole

variable {b : Bytes}

theorem decode_eq_ok_iff_all? [Readable α] {a : α} :
    decode b = .ok a ↔ (reader : Reader α).all? b = some a := by
  rw [decode]
  rcases (reader : Reader α).all? b with - | x <;> simp

/-- **A value is decoded from exactly the bytes that its reader takes.** -/
theorem decode_eq_ok_iff [Readable α] (hr : SelfDelimiting (reader : Reader α)) {a : α} :
    decode b = .ok a ↔ Reads reader b a := by
  rw [decode_eq_ok_iff_all?, hr.all?_eq_some_iff]

/-- What is not decoded is refused, and there is one refusal only. -/
theorem decode_eq_error [Readable α] (h : ∀ a : α, decode b ≠ .ok a) :
    decode b = (.error .decodingFailed : Except CodecError α) := by
  rcases hall : (reader : Reader α).all? b with - | x
  · rw [decode, hall]
  · exact absurd (decode_eq_ok_iff_all?.2 hall) (h x)

/-- The reader of a payload: the number of the message type, and the message. -/
def numbered (α : Type) [Message α] [Readable α] : Reader α := do
  Reader.expectByte (Message.number α)
  reader

/-- A payload is decoded as a value whose reader takes the number first. -/
theorem decodeMessage_eq_decode [Message α] [Readable α] (b : Bytes) :
    (decodeMessage b : Except CodecError α) = @decode α ⟨numbered α⟩ b := rfl

theorem SelfDelimiting.numbered [Message α] [Readable α]
    (hr : SelfDelimiting (reader : Reader α)) : SelfDelimiting (numbered α) :=
  (SelfDelimiting.expectByte _).bind fun _ ↦ hr

/-- **A message is decoded from exactly its number and the bytes that its reader takes.** -/
theorem decodeMessage_eq_ok_iff [Message α] [Readable α]
    (hr : SelfDelimiting (reader : Reader α)) {m : α} :
    decodeMessage b = .ok m ↔ ∃ body, b = Message.number α :: body ∧ Reads reader body m := by
  rw [decodeMessage_eq_decode, @decode_eq_ok_iff α b ⟨numbered α⟩ hr.numbered]
  show Reads (numbered α) b m ↔ _
  rw [numbered, reads_bind_iff (SelfDelimiting.expectByte _)]
  simp only [reads_expectByte_iff]
  constructor
  · rintro ⟨-, c, body, rfl, rfl, hbody⟩
    exact ⟨body, rfl, hbody⟩
  · rintro ⟨body, rfl, hbody⟩
    exact ⟨(), [Message.number α], body, rfl, rfl, hbody⟩

/-- A payload that is not decoded is refused, and there is one refusal only. -/
theorem decodeMessage_eq_error [Message α] [Readable α] (h : ∀ m : α, decodeMessage b ≠ .ok m) :
    decodeMessage b = (.error .decodingFailed : Except CodecError α) :=
  @decode_eq_error α b ⟨numbered α⟩ h

end Whole

end SecureShell.Wire

import SecureShell.Proofs.Wire.Inversion

/-!
# Canonical codecs

A codec is `Canonical` if its reader is self-delimiting and takes for a value exactly the encoding
of the value. Both directions of the codec follow, at the front of any input and for whole inputs:
what was encoded is read and leaves what follows it, and only what was encoded is decoded
(`decode_eq_ok_iff_encode`). Pairs of canonical codecs are canonical, so the law of a nested type
is found by instance resolution.
-/

namespace SecureShell.Wire

/-- The reader takes for a value exactly the encoding of the value, whatever stands after it. -/
class Canonical (α : Type) [Writable α] [Readable α] : Prop where
  /-- The reader looks at nothing beyond what it takes. -/
  selfDelimiting : SelfDelimiting (reader : Reader α)
  /-- What it takes for a value is the encoding of the value. -/
  reads_iff : ∀ {b : Bytes} {a : α}, Reads reader b a ↔ encode a = .ok b

section Laws

variable {α : Type} [Writable α] [Readable α] [Canonical α] {a : α} {b : Bytes}

/-- **Encoding is read back and leaves what follows it.** -/
theorem run_encode (h : encode a = .ok b) (rest : Bytes) :
    (reader : Reader α).run (b ++ rest) = (some a, rest) :=
  Canonical.reads_iff.2 h rest

/-- **Decoding and encoding are inverse to each other.** -/
theorem decode_eq_ok_iff_encode : decode b = .ok a ↔ encode a = .ok b := by
  rw [decode_eq_ok_iff Canonical.selfDelimiting, Canonical.reads_iff]

end Laws

/-! ### Units, words, texts and pairs -/

instance : Canonical Unit where
  selfDelimiting := SelfDelimiting.pure ()
  reads_iff {b u} := by
    show Reads (Pure.pure ()) b u ↔ _
    rw [reads_pure_iff, encode_eq_ok_iff]
    exact ⟨fun h ↦ ⟨rfl, h.1⟩, fun h ↦ ⟨h.2, rfl⟩⟩

instance : Canonical UInt32 where
  selfDelimiting := SelfDelimiting.word
  reads_iff {b x} := by
    show Reads Reader.word b x ↔ _
    rw [reads_word_iff, encode_eq_ok_iff]
    show _ ↔ (Emission.word x).complete = true ∧ b = (Emission.word x).bytes
    rw [Emission.bytes_word, and_iff_right (Emission.complete_word x)]

instance : Canonical String where
  selfDelimiting := SelfDelimiting.framedText
  reads_iff {b s} := by
    show Reads Reader.framedText b s ↔ _
    rw [reads_framedText_iff, encode_eq_ok_iff]
    show _ ↔ (Emission.framed (utf8 s)).complete = true ∧ b = (Emission.framed (utf8 s)).bytes
    rw [Emission.complete_framed, decide_eq_true_iff]
    exact and_congr_right fun hle ↦ by rw [Emission.bytes_framed hle]

section Pairs

variable {α β : Type} {b : Bytes}

theorem selfDelimiting_pair [Readable α] [Readable β] (hα : SelfDelimiting (reader : Reader α))
    (hβ : SelfDelimiting (reader : Reader β)) : SelfDelimiting (reader : Reader (α × β)) :=
  hα.bind fun _ ↦ hβ.map

/-- A pair is encoded by its parts, one after the other. -/
theorem encode_pair_eq_ok_iff [Writable α] [Writable β] {p : α × β} :
    encode p = .ok b ↔ ∃ c d, b = c ++ d ∧ encode p.1 = .ok c ∧ encode p.2 = .ok d := by
  simp only [encode_eq_ok_iff]
  show (emission p.1 ++ emission p.2).complete = true ∧
    b = (emission p.1 ++ emission p.2).bytes ↔ _
  rw [Emission.complete_append, Bool.and_eq_true]
  constructor
  · rintro ⟨⟨hfirst, hsecond⟩, rfl⟩
    exact ⟨_, _, Emission.bytes_append hfirst, ⟨hfirst, rfl⟩, hsecond, rfl⟩
  · rintro ⟨c, d, rfl, ⟨hfirst, rfl⟩, hsecond, rfl⟩
    exact ⟨⟨hfirst, hsecond⟩, (Emission.bytes_append hfirst).symm⟩

theorem exists_encode_pair_iff [Writable α] [Writable β] {p : α × β} :
    (∃ b, encode p = .ok b) ↔ (∃ c, encode p.1 = .ok c) ∧ ∃ d, encode p.2 = .ok d := by
  constructor
  · rintro ⟨b, h⟩
    obtain ⟨c, d, -, hfirst, hsecond⟩ := encode_pair_eq_ok_iff.1 h
    exact ⟨⟨c, hfirst⟩, d, hsecond⟩
  · rintro ⟨⟨c, hfirst⟩, d, hsecond⟩
    exact ⟨c ++ d, encode_pair_eq_ok_iff.2 ⟨c, d, rfl, hfirst, hsecond⟩⟩

variable [Writable α] [Readable α] [Writable β] [Readable β]

instance [Canonical α] [Canonical β] : Canonical (α × β) where
  selfDelimiting := selfDelimiting_pair Canonical.selfDelimiting Canonical.selfDelimiting
  reads_iff {b p} := by
    rw [encode_pair_eq_ok_iff]
    show Reads (reader >>= fun x ↦ reader >>= fun y ↦ Pure.pure (x, y)) b p ↔ _
    rw [reads_bind_iff Canonical.selfDelimiting]
    constructor
    · rintro ⟨x, c, d, rfl, hx, hrest⟩
      obtain ⟨y, hy, rfl⟩ := (reads_map_iff Canonical.selfDelimiting).1 hrest
      exact ⟨c, d, rfl, Canonical.reads_iff.1 hx, Canonical.reads_iff.1 hy⟩
    · rintro ⟨c, d, rfl, hx, hy⟩
      exact ⟨p.1, c, d, rfl, Canonical.reads_iff.2 hx, (Canonical.reads_iff.2 hy).map⟩

end Pairs

end SecureShell.Wire

import SecureShell.Proofs.Key.Codec
import SecureShell.Proofs.Negotiation.Payload

/-!
# Accepted inputs cannot be cut off or continued

Of two inputs that a decoder accepts, neither goes on where the other ends
(`Decodable.decode_prefixFree`). Nothing about encodings goes into this, and so it also holds where
a value has several: all that counts is that readers are self-delimiting. A reader that has taken
its value from the shorter input takes the same bytes from the longer one and leaves what follows
them, while a whole input may leave nothing.

Payloads of messages of different types are told apart by their first byte.
-/

namespace SecureShell

open Wire

variable {α β : Type}

/-- A decoder that accepts no part of an accepted input at its front, and no continuation of it. -/
def PrefixFree (f : Bytes → Except CodecError α) : Prop :=
  ∀ b a, f b = .ok a →
    (∀ c, c <+: b → c ≠ b → f c = .error .decodingFailed) ∧
      ∀ extra, extra ≠ [] → f (b ++ extra) = .error .decodingFailed

/-- **The decoders of the wire**: units, words, texts, byte strings, identities, signatures, Ed25519
public keys, cookies, negotiation messages, and pairs of what can be decoded. -/
inductive Decodable : {α : Type} → Reader α → Prop
  /-- Nothing. -/
  | unit : Decodable (reader : Reader Unit)
  /-- A 32 bit word. -/
  | word : Decodable (reader : Reader UInt32)
  /-- A text. -/
  | text : Decodable (reader : Reader String)
  /-- A byte string. -/
  | bytes : Decodable (reader : Reader Bytes)
  /-- A public key as it travels. -/
  | identity : Decodable (reader : Reader Identity)
  /-- A signature. -/
  | signature : Decodable (reader : Reader Signature)
  /-- An Ed25519 public key. -/
  | key : Decodable (reader : Reader Ed25519PublicKey)
  /-- A cookie. -/
  | cookie : Decodable (reader : Reader Cookie)
  /-- A negotiation message without its number. -/
  | kexInit : Decodable (reader : Reader KexInit)
  /-- Two values, one after the other. -/
  | pair {α β : Type} [Readable α] [Readable β] (first : Decodable (reader : Reader α))
      (second : Decodable (reader : Reader β)) : Decodable (reader : Reader (α × β))

/-! ### Self-delimiting readers accept no two inputs one of which continues the other -/

/-- No continuation of an accepted input is accepted. -/
theorem decode_append_eq_error [Readable α] (hr : SelfDelimiting (reader : Reader α)) {b : Bytes}
    {a : α} (h : decode b = .ok a) {extra : Bytes} (hne : extra ≠ []) :
    decode (b ++ extra) = (.error .decodingFailed : Except CodecError α) := by
  refine decode_eq_error fun x hx ↦ hne ?_
  have hfront := (decode_eq_ok_iff hr).1 h extra
  have hwhole := ((decode_eq_ok_iff hr).1 hx).run_eq
  exact (Prod.mk.inj (hfront.symm.trans hwhole)).2

/-- **Decoders of self-delimiting readers are prefix-free.** -/
theorem prefixFree_decode [Readable α] (hr : SelfDelimiting (reader : Reader α)) :
    PrefixFree (decode : Bytes → Except CodecError α) := by
  refine fun b a h ↦ ⟨?_, fun extra hne ↦ decode_append_eq_error hr h hne⟩
  rintro c ⟨extra, rfl⟩ hne
  refine decode_eq_error fun x hx ↦ ?_
  have hextra : extra ≠ [] := by
    rintro rfl
    exact hne (List.append_nil c).symm
  rw [decode_append_eq_error hr hx hextra] at h
  cases h

theorem prefixFree_decodeMessage [Message α] [Readable α]
    (hr : SelfDelimiting (reader : Reader α)) :
    PrefixFree (decodeMessage : Bytes → Except CodecError α) :=
  @prefixFree_decode α ⟨numbered α⟩ hr.numbered

/-- **The decoders of the wire are self-delimiting**, by induction on how they are built. -/
theorem Decodable.selfDelimiting {r : Reader α} (h : Decodable r) : SelfDelimiting r := by
  induction h with
  | unit | word | text | identity | signature | key | cookie => exact Canonical.selfDelimiting
  | bytes => exact SelfDelimiting.framed
  | kexInit => exact KexInit.selfDelimiting_reader
  | pair first second hfirst hsecond => exact selfDelimiting_pair hfirst hsecond

/-! ### Messages of different types -/

/-- A payload starts with the number of the type of its message. -/
theorem exists_of_encodeMessage [Message α] [Writable α] {m : α} {payload : Bytes}
    (h : encodeMessage m = .ok payload) : ∃ body, payload = Message.number α :: body := by
  rw [encodeMessage, Emission.toBytes_eq] at h
  split at h
  · obtain rfl := Except.ok.inj h
    exact ⟨(emission m).bytes, Emission.bytes_append (Emission.complete_byte _)⟩
  · cases h

/-- A payload that starts with another number is refused, whatever the reader of the body. -/
theorem decodeMessage_of_number_ne [Message α] [Readable α] {x : UInt8} {body : Bytes}
    (h : Message.number α ≠ x) :
    decodeMessage (x :: body) = (.error .decodingFailed : Except CodecError α) := by
  refine decodeMessage_eq_error fun m hm ↦ h ?_
  rw [decodeMessage_eq_decode, @decode_eq_ok_iff_all? α _ ⟨numbered α⟩] at hm
  obtain ⟨u, mid, hnumber, -⟩ := Reader.exists_of_run_bind (Reader.run_of_all?_eq_some hm)
  obtain ⟨c, hc, hreads⟩ := SelfDelimiting.expectByte _ _ _ _ hnumber
  rw [reads_expectByte_iff.1 hreads] at hc
  exact (List.cons.inj hc).1.symm

/-- **No accepted input can be cut off or continued.** Whatever is decoded, as a value or as the
payload of a message, neither a proper part of it at its front nor a continuation of it is decoded;
and what is encoded as a message of one type is not decoded as a message of a type with another
number. -/
theorem Decodable.decode_prefixFree :
    (∀ {α : Type} [Readable α], Decodable (reader : Reader α) →
      PrefixFree (decode : Bytes → Except CodecError α)) ∧
    (∀ {α : Type} [Message α] [Readable α], Decodable (reader : Reader α) →
      PrefixFree (decodeMessage : Bytes → Except CodecError α)) ∧
    ∀ {α β : Type} [Message α] [Readable α] [Message β] [Writable β],
      Message.number α ≠ Message.number β → ∀ (m : β) (payload : Bytes),
        encodeMessage m = .ok payload →
          decodeMessage payload = (.error .decodingFailed : Except CodecError α) := by
  refine ⟨fun h ↦ prefixFree_decode h.selfDelimiting,
    fun h ↦ prefixFree_decodeMessage h.selfDelimiting, ?_⟩
  intro α β _ _ _ _ hne m payload h
  obtain ⟨body, rfl⟩ := exists_of_encodeMessage h
  exact decodeMessage_of_number_ne hne

/-- A negotiation payload without its last byte and with one more, a signature in a pair without its
last byte, and a payload of another type of messages. -/
theorem Decodable.decode_prefixFree_kexInit :
    let payload : Bytes := 20 :: (List.replicate 16 7 ++ List.replicate 45 0)
    let pair : Bytes := [0, 0, 0, 10, 0, 0, 0, 1, 97, 0, 0, 0, 1, 9] ++ [0, 0, 0, 1]
    ((∃ m : KexInit, decodeMessage payload = .ok m) ∧
      decodeMessage payload.dropLast = (.error .decodingFailed : Except CodecError KexInit) ∧
      decodeMessage (payload ++ [0]) = (.error .decodingFailed : Except CodecError KexInit)) ∧
    (decode pair = .ok ((⟨"a", [9]⟩, 1) : Signature × UInt32) ∧
      decode pair.dropLast = (.error .decodingFailed : Except CodecError (Signature × UInt32))) ∧
    @encodeMessage Unit ⟨0⟩ _ () = .ok [0] ∧
      decodeMessage [0] = (.error .decodingFailed : Except CodecError KexInit) := by
  intro payload pair
  obtain ⟨m, hm⟩ : ∃ m : KexInit, decodeMessage payload = .ok m :=
    ⟨⟨⟨List.replicate 16 7, rfl⟩, [], [], ⟨[], []⟩, ⟨[], []⟩, ⟨[], []⟩, ⟨[], []⟩, false⟩, by decide⟩
  have hpair : decode pair = .ok ((⟨"a", [9]⟩, 1) : Signature × UInt32) := by decide
  have hunit : @encodeMessage Unit ⟨0⟩ _ () = .ok [0] := by decide
  obtain ⟨hcut, hcontinued⟩ := Decodable.decode_prefixFree.2.1 .kexInit payload m hm
  obtain ⟨hpaircut, -⟩ := Decodable.decode_prefixFree.1 (.pair .signature .word) pair _ hpair
  refine ⟨⟨⟨m, hm⟩, hcut _ (List.dropLast_prefix payload) (by decide), hcontinued [0] (by decide)⟩,
    ⟨hpair, hpaircut _ (List.dropLast_prefix pair) (by decide)⟩, hunit, ?_⟩
  exact @Decodable.decode_prefixFree.2.2 KexInit Unit _ _ ⟨0⟩ _ (by decide) () [0] hunit

end SecureShell

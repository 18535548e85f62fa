import SecureShell.Proofs.Packet.ChaCha20Poly1305
import SecureShell.Proofs.Packet.Key

/-!
# Nothing is decrypted unless its tag is right

An instance of a packet cipher is called any number of times, with keys and with buffers. What it
has become is a matter of the keys alone (`PacketCipher.after_fresh`), so what can be said of it is
said of one call: without a key it does nothing (`Keyless`), and with a key it is known what it does
(`ChaCha20Poly1305.ActsUnder`). For decrypting, the buffers are told apart by their bytes and not by
the steps of the check: those that end in the tag of what precedes it (`Authentic`) are opened,
which changes the bytes of the payload and no others (`Opening`), and those that do not are left as
they are. That no failure changes a buffer needs no key and no tag (`encrypt_eq_error`,
`decrypt_eq_error`).
-/

namespace SecureShell

/-! ### Calls -/

/-- A call of an instance of a packet cipher, with all that it is given. -/
inductive CipherCall where
  /-- Gives a key. -/
  | init (key : Bytes)
  /-- Encrypts a buffer. -/
  | encrypt (seq : UInt64) (buffer : Bytes)
  /-- Decrypts a buffer. -/
  | decrypt (seq : UInt64) (buffer : Bytes)
  /-- Asks for the size of a packet. -/
  | packetLength (seq : UInt64) (field : Bytes)

/-- The key that a call gives. -/
def CipherCall.key? : CipherCall → Option Bytes
  | init key => some key
  | encrypt _ _ | decrypt _ _ | packetLength _ _ => none

namespace CipherContext

/-- A key is taken exactly if it has the right length. -/
theorem init_fst (c : CipherContext) (key : Bytes) : (c.init key).1 =
    if key.length = c.cipher.keyLength then .ok () else .error .invalidKeyLength := by
  rw [init, apply_ite Prod.fst]
  exact ite_not ..

/-- A key that is refused leaves everything as it was. -/
theorem init_snd (c : CipherContext) (key : Bytes) : (c.init key).2 =
    if key.length = c.cipher.keyLength then { c with key := some key } else c := by
  rw [init, apply_ite Prod.snd]
  exact ite_not ..

/-- An instance after a call. What is done to buffers does not change it. -/
def call (c : CipherContext) : CipherCall → CipherContext
  | .init key => (c.init key).2
  | .encrypt _ _ | .decrypt _ _ | .packetLength _ _ => c

/-- An instance after one call after the other. -/
def after (c : CipherContext) (calls : List CipherCall) : CipherContext := calls.foldl call c

/-- What an instance does that has no key: it reports so, and leaves buffers as they are. -/
structure Keyless (c : CipherContext) : Prop where
  /-- Nothing is encrypted. -/
  encrypt_eq : ∀ seq buffer, c.encrypt seq buffer = (.error .notInitialized, buffer)
  /-- Nothing is decrypted. -/
  decrypt_eq : ∀ seq buffer, c.decrypt seq buffer = (.error .notInitialized, buffer)
  /-- No size is told. -/
  packetLength_eq : ∀ seq field, c.packetLength seq field = .error .notInitialized

theorem keyless {c : CipherContext} (h : c.key = none) : c.Keyless := by
  obtain ⟨cipher, key⟩ := c
  cases h
  exact ⟨fun _ _ ↦ rfl, fun _ _ ↦ rfl, fun _ _ ↦ rfl⟩

end CipherContext

/-- **What an instance has become**: it has the last key of the right length that it was given. -/
theorem PacketCipher.after_fresh (p : PacketCipher) (calls : List CipherCall) :
    p.fresh.after calls = ⟨p, keyInForce p.keyLength (calls.filterMap CipherCall.key?)⟩ := by
  refine foldl_eq_keyInForce (CipherContext.mk p) (fun k call key hkey ↦ ?_)
    (fun k call hkey ↦ ?_) calls
  · cases call with
    | init key' =>
      cases hkey
      exact CipherContext.init_snd ⟨p, k⟩ key
    | encrypt | decrypt | packetLength => cases hkey
  · cases call with
    | init key => cases hkey
    | encrypt | decrypt | packetLength => rfl

namespace ChaCha20Poly1305

open Cipher

/-! ### Authentic buffers -/

/-- **A buffer that may be opened**: it has a payload, and its last bytes are the tag of all before
them, under the first half of block zero of `K₂`. -/
structure Authentic (K₂ : Bytes) (seq : UInt64) (buffer : Bytes) : Prop where
  /-- There is something between the length field and the tag. -/
  long : 20 < buffer.length
  /-- The last sixteen bytes are the tag of the others. -/
  tag_eq : buffer.drop (buffer.length - 16) =
    Poly1305.tag ((ChaCha20.block K₂ (bigEndian 8 seq.toNat) 0).take 32)
      (buffer.take (buffer.length - 16))

/-- **What becomes of a buffer that is opened**: the bytes between the length field and the tag are
combined with the keystream of `K₂` from block one on, and all others stay. -/
structure Opening (K₂ : Bytes) (seq : UInt64) (buffer opened : Bytes) : Prop where
  /-- A packet is decrypted in place. -/
  length_eq : opened.length = buffer.length
  /-- The length field and the tag stay. -/
  frame_byte : ∀ i, i < 4 ∨ buffer.length - 16 ≤ i → opened[i]? = buffer[i]?
  /-- The payload is decrypted. -/
  payload_byte : ∀ i, 4 ≤ i → i < buffer.length - 16 → opened[i]? =
    buffer[i]?.map fun x ↦ x ^^^ ChaCha20.keystreamByte K₂ (bigEndian 8 seq.toNat) (64 + (i - 4))

section Buffers

variable {key : Bytes} {seq : UInt64} {buffer : Bytes}

theorem field_append_payload (h : 20 ≤ buffer.length) :
    field buffer ++ payload buffer = buffer.take (buffer.length - 16) := by
  have hfield : field buffer = (buffer.take (buffer.length - 16)).take 4 := by
    rw [List.take_take, Nat.min_eq_left (by omega), field, fieldLength]
  rw [hfield, payload, tagLength, fieldLength, List.take_append_drop]

/-- A buffer is its length field, its payload and its tag. -/
theorem parts_append (h : 20 ≤ buffer.length) :
    field buffer ++ payload buffer ++ tagOf buffer = buffer := by
  rw [field_append_payload h, tagOf, tagLength, List.take_append_drop]

theorem length_tagOf (h : 20 ≤ buffer.length) : (tagOf buffer).length = 16 := by
  rw [tagOf, List.length_drop, tagLength]
  omega

/-- The tag that is expected of a buffer, in documented terms. -/
theorem authentic_iff (h : 20 < buffer.length) : Authentic (payloadKey key) seq buffer ↔
    tagFor key seq (field buffer ++ payload buffer) = tagOf buffer := by
  have htag : tagFor key seq (field buffer ++ payload buffer) =
      Poly1305.tag ((ChaCha20.block (payloadKey key) (bigEndian 8 seq.toNat) 0).take 32)
        (buffer.take (buffer.length - 16)) := by
    rw [tagFor, payloadStream_eq, field_append_payload h.le, nonce]
  rw [htag]
  exact ⟨fun ha ↦ ha.tag_eq.symm, fun ha ↦ ⟨h, ha.symm⟩⟩

/-- The bytes of a buffer whose payload has been decrypted. -/
def openedBuffer (key : Bytes) (seq : UInt64) (buffer : Bytes) : Bytes :=
  field buffer ++ ((payloadStream key seq).2.apply (payload buffer)).1 ++ tagOf buffer

theorem opening_openedBuffer (h : 20 ≤ buffer.length) :
    Opening (payloadKey key) seq buffer (openedBuffer key seq buffer) := by
  have hfield : (field buffer).length = 4 := length_field h
  have htag : (tagOf buffer).length = 16 := length_tagOf h
  have hpayload : ((payloadStream key seq).2.apply (payload buffer)).1.length =
      buffer.length - 20 := by
    rw [ChaCha20.Keystream.length_apply, length_payload]
  have hborder : (field buffer ++ ((payloadStream key seq).2.apply (payload buffer)).1).length =
      buffer.length - 16 := by
    rw [List.length_append, hfield, hpayload]
    omega
  refine ⟨?_, fun i hi ↦ ?_, fun i hlow hhigh ↦ ?_⟩
  · rw [openedBuffer, List.length_append, hborder, htag]
    omega
  · rcases hi with hi | hi
    · rw [openedBuffer, List.append_assoc, List.getElem?_append_left (by omega), getElem?_field hi]
    · have hlast : buffer.length - 16 + (i - (buffer.length - 16)) = i := by omega
      rw [openedBuffer, List.getElem?_append_right (by omega), hborder, tagOf, tagLength,
        List.getElem?_drop, hlast]
  · have hi : 4 + (i - 4) = i := by omega
    rw [openedBuffer, List.getElem?_append_left (by omega), List.getElem?_append_right (by omega),
      hfield, getElem?_apply_payload (by omega), hi]

/-! ### One buffer -/

/-- **A buffer with a payload is opened exactly if its tag is the expected one**, and otherwise left
as it is. -/
theorem decrypt_of_lt (hlong : 20 < buffer.length) :
    decrypt key seq buffer =
      if tagFor key seq (field buffer ++ payload buffer) = tagOf buffer then
        (.ok (buffer.length - 20), openedBuffer key seq buffer)
      else (.error .integrityCheckFailed, buffer) := by
  have hpayload : payload buffer ≠ [] := by
    rw [← List.length_pos_iff, length_payload]
    omega
  have heq : decrypt key seq (field buffer ++ payload buffer ++ tagOf buffer) = _ :=
    decrypt_append (length_field hlong.le) hpayload (length_tagOf hlong.le)
  rwa [parts_append hlong.le, length_payload] at heq

theorem decrypt_of_authentic (h : Authentic (payloadKey key) seq buffer) :
    decrypt key seq buffer = (.ok (buffer.length - 20), openedBuffer key seq buffer) := by
  rw [decrypt_of_lt h.long, if_pos ((authentic_iff h.long).1 h)]

/-- A buffer that is not authentic is refused for its length or for its tag. -/
theorem decrypt_of_not_authentic (h : ¬Authentic (payloadKey key) seq buffer) :
    decrypt key seq buffer =
      (.error (if buffer.length ≤ 20 then .invalidLength else .integrityCheckFailed), buffer) := by
  split
  · rename_i hshort
    exact decrypt_of_le hshort
  · rename_i hlong
    have hlong : 20 < buffer.length := Nat.lt_of_not_le hlong
    rw [decrypt_of_lt hlong, if_neg (mt (authentic_iff hlong).2 h)]

/-- The size that a length field announces: the field is combined with the keystream of `K₁` from
its start on, and the field and the tag are counted in. -/
def announcedLength (K₁ : Bytes) (seq : UInt64) (field : Bytes) : ℕ :=
  ofBigEndian (xorBytes field (ChaCha20.keystream K₁ (bigEndian 8 seq.toNat) 0 4)) + 20

theorem ofBigEndian_apply_fieldStream {bytes : Bytes} (h : bytes.length = 4) :
    ofBigEndian ((fieldStream key seq).apply bytes).1 + 20 =
      announcedLength (fieldKey key) seq bytes := by
  have hnext : (fieldStream key seq).next 4 =
      ChaCha20.keystream (fieldKey key) (bigEndian 8 seq.toNat) 0 4 :=
    ChaCha20.Keystream.next_start 4
  rw [ChaCha20.Keystream.apply, h, hnext, announcedLength]

/-- **A buffer is left as it is if encrypting it fails.** -/
theorem encrypt_eq_error {e : CryptoError} (h : (encrypt key seq buffer).1 = .error e) :
    (encrypt key seq buffer).2 = buffer := by
  by_cases hroom : 20 ≤ buffer.length
  · rw [encrypt_of_le hroom] at h
    cases h
  · rw [encrypt_of_lt (Nat.lt_of_not_le hroom)]

/-- **A buffer is left as it is if decrypting it fails.** -/
theorem decrypt_eq_error {e : CryptoError} (h : (decrypt key seq buffer).1 = .error e) :
    (decrypt key seq buffer).2 = buffer := by
  by_cases hauthentic : Authentic (payloadKey key) seq buffer
  · rw [decrypt_of_authentic hauthentic] at h
    cases h
  · rw [decrypt_of_not_authentic hauthentic]

end Buffers

/-! ### Every call -/

/-- **What an instance does whose key is in force.** -/
structure ActsUnder (key : Bytes) (c : CipherContext) : Prop where
  /-- A buffer that has no room for the length field and the tag is not encrypted. -/
  encrypt_short : ∀ seq buffer, buffer.length < 20 →
    c.encrypt seq buffer = (.error .invalidLength, buffer)
  /-- Any other buffer is encrypted in the documented form. -/
  encrypt_sealed : ∀ seq buffer, 20 ≤ buffer.length → ∃ sealed,
    c.encrypt seq buffer = (.ok (), sealed) ∧
      Construction (payloadKey key) (fieldKey key) seq buffer sealed
  /-- An authentic buffer is decrypted, and nothing but its payload changes. -/
  decrypt_opened : ∀ seq buffer, Authentic (payloadKey key) seq buffer → ∃ opened,
    c.decrypt seq buffer = (.ok (buffer.length - 20), opened) ∧
      Opening (payloadKey key) seq buffer opened
  /-- Any other buffer is refused, and nothing changes. -/
  decrypt_refused : ∀ seq buffer, ¬Authentic (payloadKey key) seq buffer → c.decrypt seq buffer =
    (.error (if buffer.length ≤ 20 then .invalidLength else .integrityCheckFailed), buffer)
  /-- The size of a packet is told if it is allowed. -/
  packetLength_eq : ∀ seq field, field.length = 4 → c.packetLength seq field =
    if announcedLength (fieldKey key) seq field ≤ 35000 then
      .ok (announcedLength (fieldKey key) seq field)
    else .error .invalidLength

theorem actsUnder (key : Bytes) : ActsUnder key ⟨cipher, some key⟩ where
  encrypt_short _ _ h := encrypt_of_lt h
  encrypt_sealed _ _ h := ⟨_, encrypt_of_le h, construction_sealed h⟩
  decrypt_opened _ _ h := ⟨_, decrypt_of_authentic h, opening_openedBuffer h.long.le⟩
  decrypt_refused _ _ h := decrypt_of_not_authentic h
  packetLength_eq seq field h := by
    rw [← ofBigEndian_apply_fieldStream h]
    exact packetLength_eq field

theorem ActsUnder.decrypt_ok_iff {key : Bytes} {c : CipherContext} (h : ActsUnder key c)
    (seq : UInt64) (buffer : Bytes) :
    (∃ n, (c.decrypt seq buffer).1 = .ok n) ↔ Authentic (payloadKey key) seq buffer := by
  refine ⟨fun ⟨n, hok⟩ ↦ ?_, fun hauthentic ↦ ?_⟩
  · by_contra hforged
    rw [h.decrypt_refused seq buffer hforged] at hok
    cases hok
  · obtain ⟨opened, heq, -⟩ := h.decrypt_opened seq buffer hauthentic
    exact ⟨_, by rw [heq]⟩

/-- **Whatever an instance has been called with before**, a key of sixty-four bytes is taken and any
other one refused; the last one that was taken is the key of all that follows, and without one there
is an error. A buffer is decrypted exactly if it has a payload and ends in the tag of what precedes
it, and then its length field and its tag stay as they are. A buffer that is not encrypted or not
decrypted is not changed. -/
theorem authenticated_before_decrypted (calls : List CipherCall) :
    let c := cipher.fresh.after calls
    let inForce := keyInForce 64 (calls.filterMap CipherCall.key?)
    (∀ key, (c.init key).1 = if key.length = 64 then .ok () else .error .invalidKeyLength) ∧
      (inForce = none → c.Keyless) ∧
      (∀ key, inForce = some key → ActsUnder key c ∧ ∀ seq buffer,
        (∃ n, (c.decrypt seq buffer).1 = .ok n) ↔ Authentic (payloadKey key) seq buffer) ∧
      (∀ seq buffer e, (c.encrypt seq buffer).1 = .error e → (c.encrypt seq buffer).2 = buffer) ∧
      ∀ seq buffer e, (c.decrypt seq buffer).1 = .error e → (c.decrypt seq buffer).2 = buffer := by
  intro c inForce
  have hc : c = ⟨cipher, inForce⟩ := cipher.after_fresh calls
  rw [hc]
  refine ⟨fun key ↦ ?_, fun h ↦ CipherContext.keyless h, fun key h ↦ ?_, fun seq buffer e h ↦ ?_,
    fun seq buffer e h ↦ ?_⟩
  · exact CipherContext.init_fst _ key
  · rw [h]
    exact ⟨actsUnder key, (actsUnder key).decrypt_ok_iff⟩
  · rcases inForce with - | key
    · rfl
    · exact encrypt_eq_error h
  · rcases inForce with - | key
    · rfl
    · exact decrypt_eq_error h

end ChaCha20Poly1305

end SecureShell

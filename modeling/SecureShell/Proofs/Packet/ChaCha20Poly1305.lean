import SecureShell.Packet.ChaCha20Poly1305
import SecureShell.Proofs.Cipher.ChaCha20

/-!
# Packets under ChaCha20 and Poly1305

The documented construction of an encrypted packet, and that decrypting undoes it. The construction
is said byte by byte (`Construction`), without streams: which byte of which keystream each byte of
the packet is combined with. Two facts carry the proof. The keystream of the payload has lost
exactly one block when the payload begins (`payloadStream_eq`), and a buffer is its length field,
its payload and its tag, whose borders encrypting does not move (`field_append` and its siblings).
-/

namespace SecureShell.ChaCha20Poly1305

open Cipher

/-! ### The parts of a buffer -/

section Parts

variable {buffer front middle last : Bytes}

theorem length_field (h : 20 ≤ buffer.length) : (field buffer).length = 4 := by
  rw [field, List.length_take, fieldLength]
  omega

theorem length_payload (buffer : Bytes) : (payload buffer).length = buffer.length - 20 := by
  rw [payload, List.length_drop, List.length_take, fieldLength, tagLength]
  omega

theorem getElem?_field {i : ℕ} (h : i < 4) : (field buffer)[i]? = buffer[i]? :=
  List.getElem?_take_of_lt h

theorem getElem?_payload {i : ℕ} (h : 4 + i < buffer.length - 16) :
    (payload buffer)[i]? = buffer[4 + i]? := by
  rw [payload, List.getElem?_drop, fieldLength, tagLength, List.getElem?_take_of_lt h]

theorem field_append (hfront : front.length = 4) : field (front ++ middle ++ last) = front := by
  rw [field, List.append_assoc, fieldLength, ← hfront, List.take_left]

theorem length_sub_tagLength (hlast : last.length = 16) :
    (front ++ middle ++ last).length - tagLength = (front ++ middle).length := by
  rw [List.length_append, hlast]
  exact Nat.add_sub_cancel ..

theorem payload_append (hfront : front.length = 4) (hlast : last.length = 16) :
    payload (front ++ middle ++ last) = middle := by
  rw [payload, length_sub_tagLength hlast, List.take_left, fieldLength, ← hfront, List.drop_left]

theorem tagOf_append (hlast : last.length = 16) : tagOf (front ++ middle ++ last) = last := by
  rw [tagOf, length_sub_tagLength hlast, List.drop_left]

end Parts

/-! ### What the operations compute -/

section Operations

variable (key : Bytes) (seq : UInt64)

/-- **The one-time key is half a block, and the payload starts with the next block**: both halves of
block zero have been used by then. -/
theorem payloadStream_eq :
    payloadStream key seq =
      ((ChaCha20.block (payloadKey key) (nonce seq) 0).take 32,
        ⟨payloadKey key, nonce seq, 64⟩) := by
  let stream := ChaCha20.Keystream.start (payloadKey key) (nonce seq)
  have hdraws : payloadStream key seq =
      ((stream.apply (List.replicate 32 0)).1,
        ⟨payloadKey key, nonce seq, 32 + (stream.apply (List.replicate 32 0)).1.length⟩) := rfl
  have hfirst : stream.next 32 = (ChaCha20.block (payloadKey key) (nonce seq) 0).take 32 :=
    (ChaCha20.Keystream.next_start 32).trans (ChaCha20.keystream_of_lt (by decide))
  rw [hdraws, ChaCha20.Keystream.length_apply, ChaCha20.Keystream.apply_replicate_zero, hfirst]
  rfl

/-- The length field of a buffer, encrypted. -/
def sealedField (buffer : Bytes) : Bytes := ((fieldStream key seq).apply (field buffer)).1

/-- The payload of a buffer, encrypted. -/
def sealedPayload (buffer : Bytes) : Bytes := ((payloadStream key seq).2.apply (payload buffer)).1

/-- The tag of encrypted bytes. -/
def tagFor (bytes : Bytes) : Bytes := Poly1305.tag (payloadStream key seq).1 bytes

/-- The tag of a buffer, once it is encrypted. -/
def sealedTag (buffer : Bytes) : Bytes :=
  tagFor key seq (sealedField key seq buffer ++ sealedPayload key seq buffer)

variable {key seq} {buffer : Bytes}

theorem length_sealedField (h : 20 ≤ buffer.length) : (sealedField key seq buffer).length = 4 := by
  rw [sealedField, ChaCha20.Keystream.length_apply, length_field h]

theorem length_sealedPayload : (sealedPayload key seq buffer).length = buffer.length - 20 := by
  rw [sealedPayload, ChaCha20.Keystream.length_apply, length_payload]

/-- The bytes of a payload are combined with the keystream from block one on. -/
theorem getElem?_apply_payload {i : ℕ} (h : 4 + i < buffer.length - 16) :
    ((payloadStream key seq).2.apply (payload buffer)).1[i]? = buffer[4 + i]?.map fun x ↦
      x ^^^ ChaCha20.keystreamByte (payloadKey key) (bigEndian 8 seq.toNat) (64 + i) := by
  rw [ChaCha20.Keystream.getElem?_apply, getElem?_payload h, payloadStream_eq]
  rfl

theorem length_sealedTag : (sealedTag key seq buffer).length = 16 :=
  Poly1305.length_tag _ _

/-- The tag of an encrypted buffer stands where it stood. -/
theorem length_sealedField_append (h : 20 ≤ buffer.length) :
    (sealedField key seq buffer ++ sealedPayload key seq buffer).length = buffer.length - 16 := by
  rw [List.length_append, length_sealedField h, length_sealedPayload]
  omega

theorem take_sealed (h : 20 ≤ buffer.length) :
    (sealedField key seq buffer ++ sealedPayload key seq buffer ++
      sealedTag key seq buffer).take 4 = sealedField key seq buffer :=
  field_append (length_sealedField h)

theorem drop_sealed (h : 20 ≤ buffer.length) :
    (sealedField key seq buffer ++ sealedPayload key seq buffer ++
      sealedTag key seq buffer).drop (buffer.length - 16) = sealedTag key seq buffer := by
  have hborder : (sealedField key seq buffer ++ sealedPayload key seq buffer).length =
      buffer.length - 16 := length_sealedField_append h
  rw [← hborder, List.drop_left]

/-- A buffer is encrypted if it has room for the length field and the tag. -/
theorem encrypt_of_le (h : 20 ≤ buffer.length) :
    encrypt key seq buffer =
      (.ok (), sealedField key seq buffer ++ sealedPayload key seq buffer ++
        sealedTag key seq buffer) :=
  if_neg (Nat.not_lt_of_le h)

theorem encrypt_of_lt (h : buffer.length < 20) :
    encrypt key seq buffer = (.error .invalidLength, buffer) :=
  if_pos h

theorem decrypt_of_le (h : buffer.length ≤ 20) :
    decrypt key seq buffer = (.error .invalidLength, buffer) :=
  if_pos h

/-- **A buffer with a payload is decrypted exactly if its last bytes are the tag of the others.**
Otherwise it is left as it is. -/
theorem decrypt_append {front middle last : Bytes} (hfront : front.length = 4)
    (hmiddle : middle ≠ []) (hlast : last.length = 16) :
    decrypt key seq (front ++ middle ++ last) =
      if tagFor key seq (front ++ middle) = last then
        (.ok middle.length, front ++ ((payloadStream key seq).2.apply middle).1 ++ last)
      else (.error .integrityCheckFailed, front ++ middle ++ last) := by
  have hlong : ¬ (front ++ middle ++ last).length ≤ fieldLength + tagLength := by
    have hpos : 0 < middle.length := List.length_pos_iff.2 hmiddle
    simp only [List.length_append, fieldLength, tagLength]
    omega
  have hsize : (front ++ middle).length - fieldLength = middle.length := by
    rw [List.length_append, hfront]
    exact Nat.add_sub_cancel_left ..
  have htaglength : (tagFor key seq (front ++ middle)).length = last.length :=
    (Poly1305.length_tag _ _).trans hlast.symm
  rw [decrypt, if_neg hlong, length_sub_tagLength hlast, List.take_left, hsize,
    payload_append hfront hlast, tagOf_append hlast, field_append hfront]
  by_cases htag : tagFor key seq (front ++ middle) = last
  · rw [if_pos htag]
    exact if_neg (not_not.2 ((difference_eq_zero_iff htaglength).2 htag))
  · rw [if_neg htag]
    exact if_pos (mt (difference_eq_zero_iff htaglength).1 htag)

/-- The size of a packet is that of its decrypted length field, unless it is too large. -/
theorem packetLength_eq (bytes : Bytes) :
    packetLength key seq bytes =
      if ofBigEndian ((fieldStream key seq).apply bytes).1 + 20 ≤ 35000 then
        .ok (ofBigEndian ((fieldStream key seq).apply bytes).1 + 20)
      else .error .invalidLength := by
  have hsum : fieldLength + ofBigEndian ((fieldStream key seq).apply bytes).1 + tagLength =
      ofBigEndian ((fieldStream key seq).apply bytes).1 + 20 := by
    rw [fieldLength, tagLength]
    omega
  have hsize : packetLength key seq bytes =
      let n := fieldLength + ofBigEndian ((fieldStream key seq).apply bytes).1 + tagLength
      if n > maxPacketLength then .error .invalidLength else .ok n := rfl
  simp only [hsize, hsum, maxPacketLength]
  by_cases hmax : ofBigEndian ((fieldStream key seq).apply bytes).1 + 20 ≤ 35000
  · rw [if_pos hmax, if_neg (Nat.not_lt_of_le hmax)]
  · rw [if_neg hmax, if_pos (Nat.lt_of_not_le hmax)]

/-- The length field of a plain packet is read from the encrypted one. -/
theorem packetLength_sealedField :
    packetLength key seq (sealedField key seq buffer) =
      if ofBigEndian (field buffer) + 20 ≤ 35000 then .ok (ofBigEndian (field buffer) + 20)
      else .error .invalidLength := by
  rw [packetLength_eq, sealedField, ChaCha20.Keystream.apply_apply]

/-- **Decrypting undoes encrypting** for every buffer with a payload: the tag is the right one and
the payload comes back, while the encrypted length field and the tag stay. -/
theorem decrypt_sealed (h : 20 < buffer.length) :
    decrypt key seq (sealedField key seq buffer ++ sealedPayload key seq buffer ++
        sealedTag key seq buffer) =
      (.ok (buffer.length - 20),
        sealedField key seq buffer ++ payload buffer ++ sealedTag key seq buffer) := by
  have hpayload : sealedPayload key seq buffer ≠ [] := by
    rw [← List.length_pos_iff, length_sealedPayload]
    omega
  have htag : tagFor key seq (sealedField key seq buffer ++ sealedPayload key seq buffer) =
      sealedTag key seq buffer := rfl
  rw [decrypt_append (length_sealedField h.le) hpayload length_sealedTag, if_pos htag,
    length_sealedPayload, sealedPayload, ChaCha20.Keystream.apply_apply]

end Operations

/-! ### The documented construction -/

/-- **The documented form of an encrypted packet**: which bytes the packet `plain` becomes when it
is encrypted with `K₂` and `K₁`. Both keystreams are those of the sequence number, most significant
byte first. -/
structure Construction (K₂ K₁ : Bytes) (seq : UInt64) (plain sealed : Bytes) : Prop where
  /-- A packet is encrypted in place. -/
  length_eq : sealed.length = plain.length
  /-- The length field is combined with the keystream of `K₁` from its start on. -/
  field_byte : ∀ i < 4, sealed[i]? =
    plain[i]?.map fun x ↦ x ^^^ ChaCha20.keystreamByte K₁ (bigEndian 8 seq.toNat) i
  /-- What follows, up to the tag, is combined with the keystream of `K₂` from block one on. -/
  payload_byte : ∀ i, 4 ≤ i → i < plain.length - 16 → sealed[i]? =
    plain[i]?.map fun x ↦ x ^^^ ChaCha20.keystreamByte K₂ (bigEndian 8 seq.toNat) (64 + (i - 4))
  /-- The tag is that of all bytes before it, under the first half of block zero of `K₂`. -/
  tag_eq : sealed.drop (plain.length - 16) =
    Poly1305.tag ((ChaCha20.block K₂ (bigEndian 8 seq.toNat) 0).take 32)
      (sealed.take (plain.length - 16))

/-- The operations build the documented form. -/
theorem construction_sealed {key : Bytes} {seq : UInt64} {plain : Bytes} (h : 20 ≤ plain.length) :
    Construction (payloadKey key) (fieldKey key) seq plain
      (sealedField key seq plain ++ sealedPayload key seq plain ++ sealedTag key seq plain) := by
  have hfield : (sealedField key seq plain).length = 4 := length_sealedField h
  have htag : (sealedTag key seq plain).length = 16 := length_sealedTag
  have hborder : (sealedField key seq plain ++ sealedPayload key seq plain).length =
      plain.length - 16 := length_sealedField_append h
  refine ⟨?_, fun i hi ↦ ?_, fun i hlow hhigh ↦ ?_, ?_⟩
  · rw [List.length_append, hborder, htag]
    omega
  · rw [List.append_assoc, List.getElem?_append_left (by omega), sealedField,
      ChaCha20.Keystream.getElem?_apply, getElem?_field hi]
    simp [fieldStream, ChaCha20.Keystream.start, nonce]
  · have hi : 4 + (i - 4) = i := by omega
    rw [List.getElem?_append_left (by omega), List.getElem?_append_right (by omega), hfield,
      sealedPayload, getElem?_apply_payload (by omega), hi]
  · rw [drop_sealed h, ← hborder, List.take_left, sealedTag, tagFor, payloadStream_eq]
    rfl

/-- An instance of the cipher takes every key of the right length, whatever it was given before. -/
theorem init_eq {c : CipherContext} (hc : c.cipher = cipher) {key : Bytes} (h : key.length = 64) :
    c.init key = (.ok (), ⟨cipher, some key⟩) := by
  have hlength : key.length = c.cipher.keyLength := by rw [hc, h, cipher]
  rw [CipherContext.init, if_neg (not_not.2 hlength), hc]

/-- **Packets are encrypted as documented, and decrypted again.** The key is `K₂` followed by `K₁`.
A sender that has been given it encrypts every buffer of more than twenty bytes into the documented
form. Any receiver that has been given it reads the packet's size from the first four bytes, if the
plain length field says a size that is allowed, and decrypts the packet: the bytes between the
length field and the tag are the plain ones again, and the others stay. -/
theorem encrypts_as_documented {K₂ K₁ : Bytes} (h₂ : K₂.length = 32) (h₁ : K₁.length = 32)
    (seq : UInt64) {plain : Bytes} (hlong : 20 < plain.length) {sender receiver : CipherContext}
    (hsender : sender.cipher = cipher) (hreceiver : receiver.cipher = cipher) :
    (sender.init (K₂ ++ K₁)).1 = .ok () ∧ (receiver.init (K₂ ++ K₁)).1 = .ok () ∧
      ∃ sealed, (sender.init (K₂ ++ K₁)).2.encrypt seq plain = (.ok (), sealed) ∧
        Construction K₂ K₁ seq plain sealed ∧
        (receiver.init (K₂ ++ K₁)).2.decrypt seq sealed =
          (.ok (plain.length - 20),
            sealed.take 4 ++ (plain.take (plain.length - 16)).drop 4 ++
              sealed.drop (plain.length - 16)) ∧
        (receiver.init (K₂ ++ K₁)).2.packetLength seq (sealed.take 4) =
          if ofBigEndian (plain.take 4) + 20 ≤ 35000 then .ok (ofBigEndian (plain.take 4) + 20)
          else .error .invalidLength := by
  have hkey : (K₂ ++ K₁).length = 64 := by rw [List.length_append, h₂, h₁]
  have hpayloadKey : payloadKey (K₂ ++ K₁) = K₂ := by rw [payloadKey, ← h₂, List.take_left]
  have hfieldKey : fieldKey (K₂ ++ K₁) = K₁ := by rw [fieldKey, ← h₂, List.drop_left]
  rw [init_eq hsender hkey, init_eq hreceiver hkey]
  refine ⟨rfl, rfl, _, encrypt_of_le hlong.le, ?_, ?_, ?_⟩
  · have hform : Construction (payloadKey (K₂ ++ K₁)) (fieldKey (K₂ ++ K₁)) seq plain _ :=
      construction_sealed hlong.le
    rwa [hpayloadKey, hfieldKey] at hform
  · refine (decrypt_sealed hlong).trans ?_
    rw [take_sealed hlong.le, drop_sealed hlong.le]
    rfl
  · rw [take_sealed hlong.le]
    exact packetLength_sealedField

/-- A packet with sixteen bytes of payload, which is a quarter of a block. -/
theorem encrypts_as_documented_short :
    let K₂ : Bytes := [136, 155, 238, 35, 145, 72, 154, 220, 247, 70, 199, 97, 239, 124, 7, 41, 45,
      7, 131, 160, 203, 80, 54, 7, 100, 198, 188, 112, 19, 150, 155, 10]
    let K₁ : Bytes := [220, 134, 135, 208, 1, 2, 121, 163, 164, 252, 211, 244, 36, 148, 174, 220,
      234, 137, 133, 117, 40, 131, 157, 84, 211, 208, 74, 103, 215, 88, 145, 28]
    let plain : Bytes := [0, 0, 0, 16, 10, 97] ++ List.replicate 30 0
    let c := (cipher.fresh.init (K₂ ++ K₁)).2
    ∃ sealed, c.encrypt 7 plain = (.ok (), sealed) ∧ Construction K₂ K₁ 7 plain sealed ∧
      sealed.take 20 = [76, 188, 158, 20, 126, 192, 194, 231, 77, 234, 102, 185, 54, 122, 208, 204,
        155, 191, 192, 209] ∧
      (c.decrypt 7 sealed).1 = .ok 16 ∧ c.packetLength 7 (sealed.take 4) = .ok 36 := by
  intro K₂ K₁ plain c
  obtain ⟨-, -, sealed, hencrypt, hform, hdecrypt, hlength⟩ :=
    encrypts_as_documented (show K₂.length = 32 from rfl) (show K₁.length = 32 from rfl) 7
      (show 20 < plain.length by decide) (show cipher.fresh.cipher = cipher from rfl)
      (show cipher.fresh.cipher = cipher from rfl)
  have hfield : ofBigEndian (plain.take 4) = 16 := by decide
  have hsealed : sealed = (c.encrypt 7 plain).2 := by rw [hencrypt]
  rw [hfield, if_pos (by decide)] at hlength
  refine ⟨sealed, hencrypt, hform, ?_, congrArg Prod.fst hdecrypt, hlength⟩
  rw [hsealed]
  decide +kernel

/-! ### Which packets both sides take

A sender wants room for a length field and a tag, a receiver wants something between them. So the
two do not agree about a packet without a payload, and about that packet only. -/

/-- **The sender encrypts, and the receiver announces, every packet whose length field is right and
that is not too long; the receiver decrypts it exactly if it has a payload.** -/
theorem decrypted_unless_empty {key : Bytes} (hkey : key.length = 64) (seq : UInt64) {plain : Bytes}
    (hmax : plain.length ≤ 35000) (hfield : ofBigEndian (plain.take 4) + 20 = plain.length)
    {sender receiver : CipherContext} (hsender : sender.cipher = cipher)
    (hreceiver : receiver.cipher = cipher) :
    ∃ sealed, (sender.init key).2.encrypt seq plain = (.ok (), sealed) ∧
      (receiver.init key).2.packetLength seq (sealed.take 4) = .ok plain.length ∧
      (plain.length ≠ 20 →
        ((receiver.init key).2.decrypt seq sealed).1 = .ok (plain.length - 20)) ∧
      (plain.length = 20 →
        (receiver.init key).2.decrypt seq sealed = (.error .invalidLength, sealed)) := by
  have hroom : 20 ≤ plain.length := by omega
  rw [init_eq hsender hkey, init_eq hreceiver hkey]
  refine ⟨_, encrypt_of_le hroom, ?_, fun hne ↦ ?_, fun hempty ↦ decrypt_of_le ?_⟩
  · have hlength : ofBigEndian (field plain) + 20 = plain.length := hfield
    rw [take_sealed hroom]
    refine packetLength_sealedField.trans ?_
    rw [hlength, if_pos hmax]
  · have hlong : 20 < plain.length := by omega
    exact congrArg Prod.fst (decrypt_sealed hlong)
  · rw [(construction_sealed hroom).length_eq, hempty]

/-- The largest packet that is announced, and it is decrypted. -/
theorem decrypted_unless_empty_longest :
    let key : Bytes := List.replicate 64 1
    let plain : Bytes := bigEndian 4 34980 ++ List.replicate 34996 7
    let c := (cipher.fresh.init key).2
    ∃ sealed, c.encrypt 5 plain = (.ok (), sealed) ∧
      c.packetLength 5 (sealed.take 4) = .ok 35000 ∧ (c.decrypt 5 sealed).1 = .ok 34980 := by
  intro key plain c
  have hlength : plain.length = 35000 := by
    rw [List.length_append, length_bigEndian, List.length_replicate]
  have hfield : ofBigEndian (plain.take 4) + 20 = plain.length := by
    rw [hlength, List.take_left' (length_bigEndian 4 _), ofBigEndian_bigEndian_of_lt (by decide)]
  obtain ⟨sealed, hencrypt, hannounced, hdecrypt, -⟩ :=
    decrypted_unless_empty (show key.length = 64 from rfl) 5 hlength.le hfield
      (show cipher.fresh.cipher = cipher from rfl) (show cipher.fresh.cipher = cipher from rfl)
  rw [hlength] at hannounced hdecrypt
  exact ⟨sealed, hencrypt, hannounced, hdecrypt (by decide)⟩

/-- **A packet without a payload is encrypted and announced, and then refused** by a receiver that
has the same key and the same sequence number. -/
theorem empty_packet_refused :
    let c := (cipher.fresh.init (List.replicate 64 0)).2
    let sealed := (c.encrypt 0 (List.replicate 20 0)).2
    ofBigEndian ((List.replicate 20 0 : Bytes).take 4) + 20 = (List.replicate 20 0 : Bytes).length ∧
      (c.encrypt 0 (List.replicate 20 0)).1 = .ok () ∧
      c.packetLength 0 (sealed.take 4) = .ok 20 ∧
      (c.decrypt 0 sealed).1 = .error .invalidLength := by
  decide +kernel

end SecureShell.ChaCha20Poly1305

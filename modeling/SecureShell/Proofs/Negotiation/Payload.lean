import SecureShell.Proofs.Negotiation.RoundTrip
import SecureShell.Proofs.Wire.Canonical
import Mathlib.Data.List.Forall2

/-!
# Payloads of the negotiation message

Which byte strings are payloads of which messages, said without the reader (`KexInit.Payload`), and
that the reader accepts exactly those (`KexInit.ofBytes_accepts`).

A payload says nothing in five of its bytes but one truth value: any byte that is not zero stands
for true, and the four reserved bytes may be anything. Everything before them is determined by the
message (`KexInit.reads_body_iff`), and the writer leaves those five bytes in one form, so writing a
message that was read gives the payload in its normal form (`KexInit.toBytes_normalizes`).
-/

namespace SecureShell

open Wire

/-! ### The grammar -/

namespace Wire.NameList

/-- A text spells a list of names: the empty text spells the empty list, and names that are not
empty are separated by commas. -/
inductive Spells : String → List String → Prop
  /-- No names. -/
  | empty : Spells "" []
  /-- At least one name. -/
  | separated {names : List String} (ne_nil : names ≠ [])
      (name_ok : ∀ name ∈ names, name ≠ "" ∧ ',' ∉ name.toList) :
      Spells (",".intercalate names) names

/-- A field of a payload: four bytes which say how many follow, and as many bytes of UTF-8 which
spell the names. -/
def Field (field : Bytes) (names : List String) : Prop :=
  ∃ size text, field = size ++ utf8 text ∧ size.length = 4 ∧
    ofBigEndian size = (utf8 text).length ∧ Spells text names

theorem spells_iff {text : String} {names : List String} :
    Spells text names ↔ (∀ name ∈ names, name ≠ "" ∧ ',' ∉ name.toList) ∧ text = join names := by
  constructor
  · rintro (- | ⟨-, hnames⟩)
    · exact ⟨by simp, rfl⟩
    · exact ⟨hnames, rfl⟩
  · rintro ⟨hnames, rfl⟩
    rcases eq_or_ne names [] with rfl | hne
    · exact .empty
    · exact .separated hne hnames

/-- The fields are what is written of the lists that can travel. -/
theorem field_iff {field : Bytes} {names : List String} :
    Field field names ↔ Travels names ∧ field = (emission names).bytes := by
  constructor
  · rintro ⟨size, text, rfl, hwidth, hsize, htext⟩
    obtain ⟨hnames, rfl⟩ := spells_iff.1 htext
    have hshort : (utf8 (join names)).length ≤ 0xffffffff := by
      have hlt := ofBigEndian_lt size
      rw [hwidth, hsize] at hlt
      exact Nat.le_of_lt_succ hlt
    have htravels : Travels names :=
      ⟨fun name hn ↦ (hnames name hn).1, fun name hn ↦ (hnames name hn).2, hshort⟩
    rw [bytes_emission htravels, ← hsize, ← hwidth, bigEndian_ofBigEndian]
    exact ⟨htravels, rfl⟩
  · rintro ⟨htravels, rfl⟩
    have hlt : (utf8 (join names)).length < 256 ^ 4 := Nat.lt_succ_of_le htravels.short
    refine ⟨bigEndian 4 (utf8 (join names)).length, join names, bytes_emission htravels,
      length_bigEndian 4 _, ofBigEndian_bigEndian_of_lt hlt, spells_iff.2 ⟨fun name hn ↦ ?_, rfl⟩⟩
    exact ⟨htravels.ne_empty name hn, htravels.no_comma name hn⟩

theorem forall₂_field_iff {fields : List Bytes} {lists : List (List String)} :
    List.Forall₂ Field fields lists ↔
      (∀ names ∈ lists, Travels names) ∧ fields = lists.map fun names ↦ (emission names).bytes := by
  induction lists generalizing fields with
  | nil => simp
  | cons names lists ih =>
    rw [List.forall₂_cons_right_iff, List.forall_mem_cons, List.map_cons]
    constructor
    · rintro ⟨field, rest, hfield, hrest, rfl⟩
      obtain ⟨htravels, rfl⟩ := field_iff.1 hfield
      obtain ⟨hall, rfl⟩ := ih.1 hrest
      exact ⟨⟨htravels, hall⟩, rfl⟩
    · rintro ⟨⟨htravels, hall⟩, rfl⟩
      exact ⟨_, _, field_iff.2 ⟨htravels, rfl⟩, ih.2 ⟨hall, rfl⟩, rfl⟩

end Wire.NameList

namespace Cookie

theorem encode_eq_ok_iff_bytes {b : Bytes} {c : Cookie} : encode c = .ok b ↔ b = c.bytes := by
  rw [encode_eq_ok_iff]
  show (Emission.chunk c.bytes).complete = true ∧ b = (Emission.chunk c.bytes).bytes ↔ _
  rw [Emission.bytes_chunk, and_iff_right (Emission.complete_chunk c.bytes)]

instance : Canonical Cookie where
  selfDelimiting := (SelfDelimiting.bytes 16).bind fun _ ↦ .dite _
  reads_iff {b c} := by
    rw [encode_eq_ok_iff_bytes]
    refine ⟨fun h ↦ ?_, fun h ↦ h ▸ KexInit.reads_cookie c⟩
    obtain ⟨x, front, rest, rfl, hx, hc⟩ := (reads_bind_iff (SelfDelimiting.bytes 16)).1 h
    obtain ⟨rfl, -⟩ := reads_bytes_iff.1 hx
    obtain ⟨rfl, hlength, rfl⟩ := reads_dite_iff.1 hc
    exact List.append_nil front

end Cookie

namespace KexInit

/-- **The payloads of a message**: the number twenty, the sixteen bytes of the cookie, a field for
each of the ten lists, a byte which is zero exactly if no guessed packet follows, and four bytes
which may be anything. -/
def Payload (payload : Bytes) (m : KexInit) : Prop :=
  ∃ fields flag reserved,
    payload = 20 :: (m.cookie.bytes ++ (fields.flatten ++ (flag :: reserved))) ∧
      List.Forall₂ NameList.Field fields m.lists ∧ m.firstPacketFollows = (flag != 0) ∧
      reserved.length = 4

/-! ### What the reader takes -/

/-- The bytes of a message before its truth value, without its number. -/
def frontBytes (m : KexInit) : Bytes :=
  m.cookie.bytes ++ m.lists.flatMap listBytes

/-- The bytes before the truth value, the truth value and the reserved bytes, nested the way the
reader goes on. -/
theorem frontBytes_append (m : KexInit) (flag : UInt8) (reserved : Bytes) :
    m.frontBytes ++ flag :: reserved =
      m.cookie.bytes ++ (listBytes m.kex ++ (listBytes m.hostKey ++ (duplexBytes m.cipher ++
        (duplexBytes m.mac ++ (duplexBytes m.compression ++ (duplexBytes m.language ++
          ([flag] ++ reserved))))))) := by
  simp [frontBytes, lists, duplexBytes]

/-- What is written of a message: the bytes before the truth value, and five more. -/
theorem bodyBytes_eq (m : KexInit) :
    m.bodyBytes = m.frontBytes ++ [if m.firstPacketFollows then 1 else 0, 0, 0, 0, 0] :=
  (m.frontBytes_append _ _).symm

theorem selfDelimiting_readDuplex : SelfDelimiting readDuplex :=
  SelfDelimiting.nameList.bind fun _ ↦ SelfDelimiting.nameList.map

theorem reads_readDuplex_iff {b : Bytes} {d : Duplex (List String)} :
    Reads readDuplex b d ↔
      NameList.Travels d.clientToServer ∧ NameList.Travels d.serverToClient ∧
        b = duplexBytes d := by
  refine ⟨fun h ↦ ?_, fun ⟨hc, hs, hb⟩ ↦ hb ▸ reads_duplex hc hs⟩
  obtain ⟨names, front, rest, rfl, hnames, hrest⟩ := (reads_bind_iff SelfDelimiting.nameList).1 h
  obtain ⟨others, hothers, rfl⟩ := (reads_map_iff SelfDelimiting.nameList).1 hrest
  obtain ⟨hc, rfl⟩ := reads_nameList_iff.1 hnames
  obtain ⟨hs, rfl⟩ := reads_nameList_iff.1 hothers
  exact ⟨hc, hs, rfl⟩

theorem selfDelimiting_reader : SelfDelimiting (reader : Reader KexInit) := by
  refine Canonical.selfDelimiting.bind fun (_ : Cookie) ↦ ?_
  refine SelfDelimiting.nameList.bind fun _ ↦ SelfDelimiting.nameList.bind fun _ ↦ ?_
  refine selfDelimiting_readDuplex.bind fun _ ↦ selfDelimiting_readDuplex.bind fun _ ↦ ?_
  refine selfDelimiting_readDuplex.bind fun _ ↦ selfDelimiting_readDuplex.bind fun _ ↦ ?_
  exact SelfDelimiting.flag.bind fun _ ↦ SelfDelimiting.word.map

/-- **The reader of a message takes what is written of it**, with any byte of the same truth value
and any four bytes at the end. -/
theorem reads_body_iff {b : Bytes} {m : KexInit} :
    Reads reader b m ↔
      (∀ names ∈ m.lists, NameList.Travels names) ∧
        ∃ flag reserved, b = m.frontBytes ++ flag :: reserved ∧
          m.firstPacketFollows = (flag != 0) ∧ reserved.length = 4 := by
  constructor
  · intro h
    -- The reader goes on field by field, so each step takes one piece off the bytes.
    obtain ⟨cookie, b₁, b, rfl, hcookie, h⟩ := (reads_bind_iff Canonical.selfDelimiting).1 h
    obtain ⟨kex, b₂, b, rfl, hkex, h⟩ := (reads_bind_iff SelfDelimiting.nameList).1 h
    obtain ⟨hostKey, b₃, b, rfl, hhost, h⟩ := (reads_bind_iff SelfDelimiting.nameList).1 h
    obtain ⟨cipher, b₄, b, rfl, hcipher, h⟩ := (reads_bind_iff selfDelimiting_readDuplex).1 h
    obtain ⟨mac, b₅, b, rfl, hmac, h⟩ := (reads_bind_iff selfDelimiting_readDuplex).1 h
    obtain ⟨compression, b₆, b, rfl, hcompression, h⟩ :=
      (reads_bind_iff selfDelimiting_readDuplex).1 h
    obtain ⟨language, b₇, b, rfl, hlanguage, h⟩ := (reads_bind_iff selfDelimiting_readDuplex).1 h
    obtain ⟨follows, b₈, reserved, rfl, hfollows, h⟩ := (reads_bind_iff SelfDelimiting.flag).1 h
    obtain ⟨word, hword, rfl⟩ := (reads_map_iff SelfDelimiting.word).1 h
    obtain rfl := Cookie.encode_eq_ok_iff_bytes.1 (Canonical.reads_iff.1 hcookie)
    obtain ⟨htkex, rfl⟩ := reads_nameList_iff.1 hkex
    obtain ⟨hthost, rfl⟩ := reads_nameList_iff.1 hhost
    obtain ⟨htcc, htcs, rfl⟩ := reads_readDuplex_iff.1 hcipher
    obtain ⟨htmc, htms, rfl⟩ := reads_readDuplex_iff.1 hmac
    obtain ⟨htpc, htps, rfl⟩ := reads_readDuplex_iff.1 hcompression
    obtain ⟨htlc, htls, rfl⟩ := reads_readDuplex_iff.1 hlanguage
    obtain ⟨flag, rfl, rfl⟩ := reads_flag_iff.1 hfollows
    obtain rfl := reads_word_iff.1 hword
    refine ⟨?_, flag, bigEndian 4 word.toNat, ?_, rfl, length_bigEndian 4 _⟩
    · simp only [lists, List.forall_mem_cons, List.not_mem_nil, false_implies, implies_true,
        and_true]
      exact ⟨htkex, hthost, htcc, htcs, htmc, htms, htpc, htps, htlc, htls⟩
    · rw [frontBytes_append]
      rfl
  · rintro ⟨htravels, flag, reserved, rfl, hflag, hreserved⟩
    have hread : Reads Reader.flag [flag] m.firstPacketFollows :=
      reads_flag_iff.2 ⟨flag, rfl, hflag⟩
    rw [frontBytes_append]
    exact reads_fields htravels hread (Reads.bytes hreserved).map

theorem ofBytes_eq_ok_iff {payload : Bytes} {m : KexInit} :
    ofBytes payload = .ok m ↔ ∃ body, payload = 20 :: body ∧ Reads reader body m := by
  have hdecode : ofBytes payload = .ok m ↔ decodeMessage payload = .ok m := by
    rw [ofBytes]
    rcases (decodeMessage payload : Except CodecError KexInit) with e | x <;> simp [Except.mapError]
  rw [hdecode, decodeMessage_eq_ok_iff selfDelimiting_reader]
  rfl

/-- **The parser accepts exactly the payloads.** A byte string is parsed as a message exactly if it
is a payload of that message; of every byte string that is a payload of no message it is said that
the decoding failed. -/
theorem ofBytes_accepts (payload : Bytes) :
    (∀ m, ofBytes payload = .ok m ↔ Payload payload m) ∧
      ((¬∃ m, Payload payload m) →
        ∃ cause, ofBytes payload = .error (.invalidMessage cause) ∧
          cause.message = "decoding failed") := by
  have haccepts : ∀ m, ofBytes payload = .ok m ↔ Payload payload m := by
    intro m
    rw [ofBytes_eq_ok_iff]
    constructor
    · rintro ⟨body, rfl, hbody⟩
      obtain ⟨htravels, flag, reserved, rfl, hflag, hreserved⟩ := reads_body_iff.1 hbody
      refine ⟨m.lists.map listBytes, flag, reserved, ?_,
        NameList.forall₂_field_iff.2 ⟨htravels, rfl⟩, hflag, hreserved⟩
      rw [frontBytes, List.append_assoc, List.flatMap_def]
    · rintro ⟨fields, flag, reserved, rfl, hfields, hflag, hreserved⟩
      obtain ⟨htravels, rfl⟩ := NameList.forall₂_field_iff.1 hfields
      refine ⟨_, rfl, reads_body_iff.2 ⟨htravels, flag, reserved, ?_, hflag, hreserved⟩⟩
      rw [frontBytes, List.append_assoc, List.flatMap_def]
      rfl
  refine ⟨haccepts, fun hnone ↦ ⟨.decodingFailed, ?_, rfl⟩⟩
  have herror : decodeMessage payload = (.error .decodingFailed : Except CodecError KexInit) := by
    refine decodeMessage_eq_error fun m hm ↦ hnone ⟨m, (haccepts m).1 ?_⟩
    rw [ofBytes, hm]
    rfl
  rw [ofBytes, herror]
  rfl

/-- Any byte but zero follows as true, the reserved bytes may be anything, and a length that goes
beyond the input is refused however large it is. -/
theorem ofBytes_accepts_lenient :
    let cookie : Bytes := List.replicate 16 7
    let fields : List Bytes := [0, 0, 0, 3, 97, 44, 98] :: List.replicate 9 [0, 0, 0, 0]
    (∃ m, ofBytes (20 :: (cookie ++ (fields.flatten ++ [9, 1, 2, 3, 4]))) = .ok m ∧
      m.kex = ["a", "b"] ∧ m.hostKey = [] ∧ m.firstPacketFollows = true) ∧
    ∃ cause, ofBytes (20 :: (cookie ++ [255, 255, 255, 255, 97])) =
      .error (.invalidMessage cause) ∧ cause.message = "decoding failed" := by
  intro cookie fields
  let m : KexInit :=
    ⟨⟨cookie, rfl⟩, ["a", "b"], [], ⟨[], []⟩, ⟨[], []⟩, ⟨[], []⟩, ⟨[], []⟩, true⟩
  have hfields : List.Forall₂ NameList.Field fields m.lists :=
    NameList.forall₂_field_iff.2 ⟨by decide, by decide⟩
  refine ⟨⟨m, ?_, rfl, rfl, rfl⟩, (ofBytes_accepts _).2 ?_⟩
  · exact ((ofBytes_accepts _).1 m).2 ⟨fields, 9, [1, 2, 3, 4], rfl, hfields, rfl, rfl⟩
  · rintro ⟨n, hn⟩
    have hok := ((ofBytes_accepts _).1 n).2 hn
    cases hok

/-! ### Writing what was read -/

/-- The normal form of a payload: of its last five bytes the first is one if it was not zero, and
the others are zero. -/
def normalized (payload : Bytes) : Bytes :=
  payload.take (payload.length - 5) ++
    [if payload.getD (payload.length - 5) 0 != 0 then 1 else 0, 0, 0, 0, 0]

theorem normalized_append (front : Bytes) (flag : UInt8) {reserved : Bytes}
    (h : reserved.length = 4) :
    normalized (front ++ flag :: reserved) =
      front ++ [if flag != 0 then 1 else 0, 0, 0, 0, 0] := by
  have hfront : (front ++ flag :: reserved).length - 5 = front.length := by
    rw [List.length_append, List.length_cons, h]
    rfl
  have hflag : (front ++ flag :: reserved).getD front.length 0 = flag := by simp
  rw [normalized, hfront, List.take_left, hflag]

/-- **A message that was read is written as the normal form of what it was read from.** -/
theorem toBytes_of_ofBytes {payload : Bytes} {m : KexInit} (h : ofBytes payload = .ok m) :
    ∃ front flag reserved, payload = front ++ flag :: reserved ∧ reserved.length = 4 ∧
      m.toBytes = .ok (normalized payload) := by
  obtain ⟨body, rfl, hbody⟩ := ofBytes_eq_ok_iff.1 h
  obtain ⟨htravels, flag, reserved, rfl, hflag, hreserved⟩ := reads_body_iff.1 hbody
  refine ⟨20 :: m.frontBytes, flag, reserved, rfl, hreserved, ?_⟩
  have hnormal := normalized_append (20 :: m.frontBytes) flag hreserved
  rw [List.cons_append] at hnormal
  rw [toBytes_of_travels htravels, hnormal, bodyBytes_eq, hflag]
  rfl

theorem ofBytes_of_toBytes {payload : Bytes} {m : KexInit} (h : m.toBytes = .ok payload) :
    ofBytes payload = .ok m := by
  by_cases htravels : ∀ names ∈ m.lists, NameList.Travels names
  · rw [toBytes_of_travels htravels] at h
    obtain rfl := Except.ok.inj h
    exact ofBytes_body htravels
  · rw [toBytes_of_not_travels htravels] at h
    cases h

/-- **Writing what was read changes the last five bytes only.** A message that was read can be
written, in as many bytes, which are those it was read from up to the last five; these become one or
zero, as the truth value says, and four zeros. So two payloads that are accepted are payloads of one
message exactly if they have one normal form. -/
theorem toBytes_normalizes :
    (∀ payload m, ofBytes payload = .ok m →
      m.toBytes = .ok (normalized payload) ∧ (normalized payload).length = payload.length ∧
        ∀ i, i + 5 < payload.length → (normalized payload)[i]? = payload[i]?) ∧
      ∀ p q m n, ofBytes p = .ok m → ofBytes q = .ok n →
        (m = n ↔ normalized p = normalized q) := by
  constructor
  · intro payload m h
    obtain ⟨front, flag, reserved, rfl, hreserved, htoBytes⟩ := toBytes_of_ofBytes h
    refine ⟨htoBytes, ?_, fun i hi ↦ ?_⟩
    · rw [normalized_append front flag hreserved]
      simp [hreserved]
    · have hfront : i < front.length := by
        rw [List.length_append, List.length_cons, hreserved] at hi
        omega
      rw [normalized_append front flag hreserved, List.getElem?_append_left hfront,
        List.getElem?_append_left hfront]
  · intro p q m n hp hq
    obtain ⟨-, -, -, -, -, hm⟩ := toBytes_of_ofBytes hp
    obtain ⟨-, -, -, -, -, hn⟩ := toBytes_of_ofBytes hq
    constructor
    · rintro rfl
      exact Except.ok.inj (hm.symm.trans hn)
    · intro heq
      -- Both messages are read from their common normal form.
      rw [← heq] at hn
      exact Except.ok.inj ((ofBytes_of_toBytes hm).symm.trans (ofBytes_of_toBytes hn))

/-- Two payloads which differ in a truth value that is true in both and in the reserved bytes. -/
theorem toBytes_normalizes_reserved :
    let front : Bytes := 20 :: (List.replicate 16 7 ++ (0 :: 0 :: 0 :: 1 :: 97 ::
      List.replicate 36 0))
    ∃ m, ofBytes (front ++ [9, 1, 2, 3, 4]) = .ok m ∧ ofBytes (front ++ [1, 0, 0, 0, 5]) = .ok m ∧
      m.toBytes = .ok (front ++ [1, 0, 0, 0, 0]) := by
  intro front
  let m : KexInit :=
    ⟨⟨List.replicate 16 7, rfl⟩, ["a"], [], ⟨[], []⟩, ⟨[], []⟩, ⟨[], []⟩, ⟨[], []⟩, true⟩
  have hfirst : ofBytes (front ++ [9, 1, 2, 3, 4]) = .ok m := by decide
  obtain ⟨n, hsecond⟩ : ∃ n, ofBytes (front ++ [1, 0, 0, 0, 5]) = .ok n := ⟨m, by decide⟩
  obtain rfl : m = n := (toBytes_normalizes.2 _ _ _ _ hfirst hsecond).2 (by decide)
  exact ⟨m, hfirst, hsecond, (toBytes_normalizes.1 _ _ hfirst).1⟩

end KexInit

end SecureShell

import SecureShell.Negotiation.KexInit
import SecureShell.Proofs.Wire.Reader

/-!
# The negotiation message on the wire

A message has a payload exactly if all ten of its lists can travel, and the payload is read back as
the message. The writer goes through the ten lists as one list and the reader field by field, pair
by pair; the two orders meet in `KexInit.reads_fields`, the one place where they are compared.
-/

namespace SecureShell.KexInit

open Wire

/-! ### What is written -/

/-- Several lists are written exactly if each of them is. -/
theorem complete_emitLists_iff {ls : List (List String)} :
    (emitLists ls).complete = true ↔ ∀ names ∈ ls, NameList.Travels names := by
  induction ls with
  | nil => simp [emitLists]
  | cons names ls ih =>
    have hcons : emitLists (names :: ls) = NameList.emission names ++ emitLists ls := rfl
    rw [hcons, Emission.complete_append, Bool.and_eq_true, NameList.complete_emission_iff, ih,
      List.forall_mem_cons]

theorem bytes_emitLists {ls : List (List String)} (h : ∀ names ∈ ls, NameList.Travels names) :
    (emitLists ls).bytes = ls.flatMap fun names ↦ (NameList.emission names).bytes := by
  induction ls with
  | nil => rfl
  | cons names ls ih =>
    obtain ⟨hnames, hls⟩ := List.forall_mem_cons.1 h
    have hcons : emitLists (names :: ls) = NameList.emission names ++ emitLists ls := rfl
    rw [hcons, Emission.bytes_append (NameList.complete_emission_iff.2 hnames), ih hls,
      List.flatMap_cons]

/-- The bytes of a list of names. -/
def listBytes (names : List String) : Bytes := (NameList.emission names).bytes

/-- The bytes of a list for each direction. -/
def duplexBytes (d : Duplex (List String)) : Bytes :=
  listBytes d.clientToServer ++ listBytes d.serverToClient

/-- The bytes of a message without its number, field by field. -/
def bodyBytes (m : KexInit) : Bytes :=
  m.cookie.bytes ++ (listBytes m.kex ++ (listBytes m.hostKey ++ (duplexBytes m.cipher ++
    (duplexBytes m.mac ++ (duplexBytes m.compression ++ (duplexBytes m.language ++
      ([if m.firstPacketFollows then 1 else 0] ++ bigEndian 4 0)))))))

theorem bytes_body {m : KexInit} (h : ∀ names ∈ m.lists, NameList.Travels names) :
    (emission m).bytes = m.bodyBytes := by
  have hlists : (emission m.cookie ++ emitLists m.lists).complete = true := by
    rw [Emission.complete_append, complete_emitLists_iff.2 h]
    rfl
  have hflag : (emission m.cookie ++ emitLists m.lists ++
      Emission.flag m.firstPacketFollows).complete = true := by
    rw [Emission.complete_append, hlists, Emission.complete_flag, Bool.true_and]
  have hcookie : (emission m.cookie).bytes = m.cookie.bytes := Emission.bytes_chunk _
  show (emission m.cookie ++ emitLists m.lists ++ Emission.flag m.firstPacketFollows ++
    Emission.word 0).bytes = _
  rw [Emission.bytes_append hflag, Emission.bytes_append hlists, Emission.bytes_append rfl,
    Emission.bytes_flag, Emission.bytes_word, bytes_emitLists h, hcookie]
  simp [lists, bodyBytes, duplexBytes, listBytes]

/-- The emission of a message, its number included. -/
theorem complete_iff {m : KexInit} :
    (Emission.byte (Message.number KexInit) ++ emission m).complete = true ↔
      ∀ names ∈ m.lists, NameList.Travels names := by
  have hbody : emission m = emission m.cookie ++ emitLists m.lists ++
      Emission.flag m.firstPacketFollows ++ Emission.word 0 := rfl
  have hcookie : (emission m.cookie).complete = true := rfl
  rw [hbody]
  simp only [Emission.complete_append, Emission.complete_byte, Emission.complete_flag,
    Emission.complete_word, hcookie, Bool.true_and, Bool.and_true]
  exact complete_emitLists_iff

/-! ### What is read -/

theorem reads_cookie (c : Cookie) : Reads Cookie.read c.bytes c := by
  have h := (Reads.bytes c.length_bytes).bind
    (f := fun b ↦ if h : b.length = 16 then Pure.pure (⟨b, h⟩ : Cookie) else Reader.fail)
    (c := []) (y := c) (by
      rw [dif_pos c.length_bytes]
      exact Reads.pure c)
  rwa [List.append_nil] at h

theorem reads_duplex {d : Duplex (List String)} (hc : NameList.Travels d.clientToServer)
    (hs : NameList.Travels d.serverToClient) : Reads readDuplex (duplexBytes d) d :=
  (Reads.nameList hc).bind (Reads.nameList hs).map

/-- **The reader takes the fields in the order in which they are written**, with any bytes that it
reads as the truth value and as the reserved word. -/
theorem reads_fields {m : KexInit} (h : ∀ names ∈ m.lists, NameList.Travels names)
    {flag reserved : Bytes} {w : UInt32} (hflag : Reads Reader.flag flag m.firstPacketFollows)
    (hreserved : Reads Reader.word reserved w) :
    Reads (reader : Reader KexInit)
      (m.cookie.bytes ++ (listBytes m.kex ++ (listBytes m.hostKey ++ (duplexBytes m.cipher ++
        (duplexBytes m.mac ++ (duplexBytes m.compression ++ (duplexBytes m.language ++
          (flag ++ reserved)))))))) m := by
  simp only [lists, List.forall_mem_cons, List.not_mem_nil, false_implies, implies_true,
    and_true] at h
  obtain ⟨hkex, hhost, hcc, hcs, hmc, hms, hpc, hps, hlc, hls⟩ := h
  -- The pieces of the body are nested the way the reader goes on, so each step takes one off.
  refine Reads.bind (reads_cookie m.cookie) ?_
  refine Reads.bind (Reads.nameList hkex) ?_
  refine Reads.bind (Reads.nameList hhost) ?_
  refine Reads.bind (reads_duplex hcc hcs) ?_
  refine Reads.bind (reads_duplex hmc hms) ?_
  refine Reads.bind (reads_duplex hpc hps) ?_
  refine Reads.bind (reads_duplex hlc hls) ?_
  refine Reads.bind hflag ?_
  exact hreserved.map

/-- What is written of a message is read as the message. -/
theorem reads_body {m : KexInit} (h : ∀ names ∈ m.lists, NameList.Travels names) :
    Reads (reader : Reader KexInit) m.bodyBytes m :=
  reads_fields h (Reads.flag m.firstPacketFollows) (Reads.word 0)

/-! ### The payload -/

/-- **A message whose lists can all travel has a payload**: its number and its fields. -/
theorem toBytes_of_travels {m : KexInit} (h : ∀ names ∈ m.lists, NameList.Travels names) :
    m.toBytes = .ok (20 :: m.bodyBytes) := by
  rw [toBytes, encodeMessage, Emission.toBytes_eq, if_pos (complete_iff.2 h),
    Emission.bytes_append rfl, bytes_body h]
  rfl

/-- **No other message has one.** -/
theorem toBytes_of_not_travels {m : KexInit}
    (h : ¬∀ names ∈ m.lists, NameList.Travels names) :
    m.toBytes = .error (.invalidMessage .encodingFailed) := by
  rw [toBytes, encodeMessage, Emission.toBytes_eq, if_neg fun hc ↦ h (complete_iff.1 hc)]
  rfl

/-- The payload of a message whose lists can all travel is read as the message. -/
theorem ofBytes_body {m : KexInit} (h : ∀ names ∈ m.lists, NameList.Travels names) :
    ofBytes (20 :: m.bodyBytes) = .ok m := by
  have hread : Reads (do Reader.expectByte (Message.number KexInit); reader)
      ([20] ++ m.bodyBytes) m := by
    refine Reads.bind (Reads.expectByte 20) ?_
    exact reads_body h
  rw [List.singleton_append] at hread
  simp only [ofBytes, decodeMessage, hread.all?_eq]
  rfl

/-- **Round trip with its exact domain.** A message can be written exactly if every name of its ten
lists is a text without commas that is not empty, and no list is longer when joined than a length
field can say; what was written is read back as the same message, in all its fields; and of any
other message it is said that the encoding failed. -/
theorem toBytes_roundTrip (m : KexInit) :
    ((∃ payload, m.toBytes = .ok payload) ↔ ∀ names ∈ m.lists, NameList.Travels names) ∧
      (∀ payload, m.toBytes = .ok payload → ofBytes payload = .ok m) ∧
      ((¬∃ payload, m.toBytes = .ok payload) →
        ∃ cause, m.toBytes = .error (.invalidMessage cause) ∧
          cause.message = "encoding failed") := by
  by_cases h : ∀ names ∈ m.lists, NameList.Travels names
  · have hok := toBytes_of_travels h
    refine ⟨⟨fun _ ↦ h, fun _ ↦ ⟨_, hok⟩⟩, ?_, ?_⟩
    · intro payload hpayload
      rw [hok] at hpayload
      obtain rfl := Except.ok.inj hpayload
      exact ofBytes_body h
    · intro hnone
      exact absurd ⟨_, hok⟩ hnone
  · have herror := toBytes_of_not_travels h
    refine ⟨⟨fun ⟨payload, hok⟩ ↦ ?_, fun hall ↦ absurd hall h⟩, ?_, ?_⟩
    · rw [herror] at hok
      cases hok
    · intro payload hok
      rw [herror] at hok
      cases hok
    · intro _
      exact ⟨.encodingFailed, herror, rfl⟩

/-- A repeated name, a name outside ASCII, an empty list and a list of one name travel together. -/
theorem toBytes_roundTrip_mixed :
    ∃ m : KexInit, m.kex = ["é", "a", "é"] ∧ m.hostKey = [] ∧
      m.cipher = ⟨["none"], []⟩ ∧ ∃ payload, m.toBytes = .ok payload ∧ ofBytes payload = .ok m := by
  let m : KexInit :=
    ⟨⟨List.replicate 16 0, rfl⟩, ["é", "a", "é"], [], ⟨["none"], []⟩, ⟨[], []⟩, ⟨[], []⟩, ⟨[], []⟩,
      true⟩
  have htravels : ∀ names ∈ m.lists, NameList.Travels names := by decide
  obtain ⟨payload, hpayload⟩ := (toBytes_roundTrip m).1.2 htravels
  exact ⟨m, rfl, rfl, rfl, payload, hpayload, (toBytes_roundTrip m).2.1 payload hpayload⟩

end SecureShell.KexInit

import SecureShell.Proofs.Wire.NameList
import SecureShell.Wire.Message

/-!
# Readers: what they take

`Reads r b a` says that the reader `r` takes exactly the bytes `b` for the value `a`, **whatever
stands after them**. The quantifier over the rest is what lets fields be put one after the other
(`Reads.bind`) without speaking of positions; a whole input is the case of no rest
(`Reads.all?_eq`).
-/

namespace SecureShell.Wire

variable {α β : Type}

/-- The reader takes these bytes for this value, and leaves what follows them. -/
def Reads (r : Reader α) (b : Bytes) (a : α) : Prop :=
  ∀ rest, r.run (b ++ rest) = (some a, rest)

/-- What follows a reader that succeeds runs on the rest. -/
theorem Reader.run_bind {r : Reader α} {f : α → Reader β} {input rest : Bytes} {a : α}
    (h : r.run input = (some a, rest)) : (r >>= f).run input = (f a).run rest := by
  have hr : r input = (some a, rest) := h
  simp only [Reader.run, Bind.bind, hr]

/-- Nothing follows a reader that fails. -/
theorem Reader.run_bind_of_none {r : Reader α} {f : α → Reader β} {input rest : Bytes}
    (h : r.run input = (none, rest)) : (r >>= f).run input = (none, rest) := by
  have hr : r input = (none, rest) := h
  simp only [Reader.run, Bind.bind, hr]

namespace Reads

/-! ### Putting readers together -/

theorem pure (a : α) : Reads (Pure.pure a) [] a := fun _ ↦ rfl

/-- **Fields are read one after the other.** -/
theorem bind {r : Reader α} {f : α → Reader β} {b c : Bytes} {x : α} {y : β} (hr : Reads r b x)
    (hf : Reads (f x) c y) : Reads (r >>= f) (b ++ c) y := by
  intro rest
  rw [List.append_assoc, Reader.run_bind (hr (c ++ rest))]
  exact hf rest

/-- A field that is followed by nothing but a return of its value, changed. -/
theorem map {r : Reader α} {f : α → β} {b : Bytes} {x : α} (hr : Reads r b x) :
    Reads (r >>= fun a ↦ Pure.pure (f a)) b (f x) := by
  have h := hr.bind (f := fun a ↦ Pure.pure (f a)) (pure (f x))
  rwa [List.append_nil] at h

/-- A field whose value is looked at without reading further. -/
theorem ofOption {r : Reader α} {f : α → Option β} {b : Bytes} {x : α} {y : β} (hr : Reads r b x)
    (hf : f x = some y) : Reads (r >>= fun a ↦ Reader.ofOption (f a)) b y := by
  have h := hr.bind (f := fun a ↦ Reader.ofOption (f a)) (c := []) (y := y) (by
    rw [hf]
    exact pure y)
  rwa [List.append_nil] at h

/-- Bytes that are taken whatever stands after them are taken where nothing does. -/
theorem run_eq {r : Reader α} {b : Bytes} {a : α} (h : Reads r b a) :
    r.run b = (some a, []) := by
  have hall := h []
  rwa [List.append_nil] at hall

/-- A reader that takes all of an input gives its value. -/
theorem all?_eq {r : Reader α} {b : Bytes} {a : α} (h : Reads r b a) : r.all? b = some a := by
  show ((r >>= fun a ↦ Reader.atEnd >>= fun _ ↦ Pure.pure a).run b).1 = _
  rw [Reader.run_bind h.run_eq]
  rfl

/-! ### Fields -/

theorem byte (x : UInt8) : Reads Reader.byte [x] x := fun _ ↦ rfl

theorem bytes {n : ℕ} {b : Bytes} (h : b.length = n) : Reads (Reader.bytes n) b b := by
  intro rest
  show (if n ≤ (b ++ rest).length then (some ((b ++ rest).take n), (b ++ rest).drop n)
    else (none, b ++ rest)) = _
  rw [if_pos (by rw [List.length_append]; omega), List.take_left' h, List.drop_left' h]

theorem expectByte (x : UInt8) : Reads (Reader.expectByte x) [x] () := by
  have h := (byte x).bind (f := fun y ↦ if y = x then Pure.pure () else Reader.fail)
    (c := []) (y := ()) (by
      rw [if_pos rfl]
      exact pure ())
  exact h

/-- A word is read as it was written. -/
theorem word (x : UInt32) : Reads Reader.word (bigEndian 4 x.toNat) x := by
  have hx : UInt32.ofNat (ofBigEndian (bigEndian 4 x.toNat)) = x := by
    rw [ofBigEndian_bigEndian_of_lt (lt_of_lt_of_le x.toNat_lt (by decide)), UInt32.ofNat_toNat]
  have h := (bytes (length_bigEndian 4 x.toNat)).map (f := fun b ↦ UInt32.ofNat (ofBigEndian b))
  rwa [hx] at h

/-- Any byte but zero stands for true, and one is written. -/
theorem flag (b : Bool) : Reads Reader.flag [if b then 1 else 0] b := by
  have h := (byte (if b then 1 else 0)).map (f := fun x ↦ x != 0)
  rcases b with - | - <;> exact h

/-- A length that fits a length field is read as it was written. -/
theorem length {n : ℕ} (h : n ≤ 0xffffffff) : Reads Reader.length (bigEndian 4 n) n := by
  have hn : (UInt32.ofNat n).toNat = n :=
    UInt32.toNat_ofNat_of_lt' (Nat.lt_of_le_of_lt h (by decide))
  have hword := (word (UInt32.ofNat n)).map (f := UInt32.toNat)
  rwa [hn] at hword

/-- The UTF-8 bytes of a text are read as the text. -/
theorem text {n : ℕ} {s : String} (h : (utf8 s).length = n) :
    Reads (Reader.text n) (utf8 s) s :=
  (bytes h).ofOption (ofUtf8?_utf8 s)

theorem framedText {s : String} (h : (utf8 s).length ≤ 0xffffffff) :
    Reads Reader.framedText (bigEndian 4 (utf8 s).length ++ utf8 s) s :=
  (length h).bind (text rfl)

/-- **A name list that can travel is read as it was written.** -/
theorem nameList {names : List String} (h : NameList.Travels names) :
    Reads Reader.nameList (NameList.emission names).bytes names := by
  rw [NameList.bytes_emission h]
  exact (framedText h.short).ofOption (NameList.parse?_join h.isListable)

end Reads

end SecureShell.Wire

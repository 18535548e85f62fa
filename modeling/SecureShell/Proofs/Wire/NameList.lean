import SecureShell.Proofs.Text.Lines
import SecureShell.Proofs.Wire.Emission
import SecureShell.Wire.NameList

/-!
# Name lists: joining and splitting

Which lists can travel, what is written of them, and that splitting the joined text gives the
names back. The empty list and the list of one empty name join to the same text; it is the refusal
of empty names that keeps them apart, so the inversion (`parse?_join`) needs both halves of
`isListable`.
-/

namespace SecureShell.Wire.NameList

/-- **The lists that can travel**: every name is a text without commas that is not empty, and the
joined names are not longer than a length field can say. -/
structure Travels (names : List String) : Prop where
  /-- No name is empty. -/
  ne_empty : ∀ name ∈ names, name ≠ ""
  /-- No name holds a comma. -/
  no_comma : ∀ name ∈ names, ',' ∉ name.toList
  /-- The UTF-8 bytes of the joined names fit a length field of thirty-two bits. -/
  short : (utf8 (",".intercalate names)).length ≤ 0xffffffff

theorem isListable_iff {name : String} :
    isListable name = true ↔ name ≠ "" ∧ ',' ∉ name.toList := by
  constructor
  · intro h
    simp only [isListable, Bool.and_eq_true, Bool.not_eq_true', List.all_eq_true] at h
    refine ⟨fun he ↦ ?_, fun hc ↦ ?_⟩
    · simp [he] at h
    · simpa using h.2 _ hc
  · rintro ⟨hne, hcomma⟩
    simp only [isListable, Bool.and_eq_true, Bool.not_eq_true', List.all_eq_true]
    refine ⟨by simpa using hne, fun c hc ↦ ?_⟩
    have hne : c ≠ ',' := fun he ↦ hcomma (he ▸ hc)
    simpa using hne

theorem Travels.isListable {names : List String} (h : Travels names) :
    ∀ name ∈ names, isListable name = true := fun name hn ↦
  isListable_iff.2 ⟨h.ne_empty name hn, h.no_comma name hn⟩

/-! ### Splitting undoes joining -/

theorem splitCommas_eq_splitOn (l : List Char) : splitCommas l = l.splitOn ',' := by
  induction l with
  | nil => rfl
  | cons c l ih =>
    rw [splitCommas, List.splitOn_cons_eq_if_modifyHead, ih]
    by_cases hc : c = ','
    · simp [hc]
    · have hne := List.splitOn_ne_nil ',' l
      rcases hs : l.splitOn ',' with - | ⟨piece, pieces⟩
      · exact absurd hs hne
      · simp [hc]

theorem toList_join (names : List String) :
    (join names).toList = [','].intercalate (names.map String.toList) := String.toList_intercalate

/-- The joined names of a list that is not empty are not empty, unless a name is. -/
theorem join_ne_empty {names : List String} (hne : names ≠ [])
    (h : ∀ name ∈ names, isListable name = true) : join names ≠ "" := by
  rcases names with - | ⟨name, names⟩
  · exact absurd rfl hne
  · intro he
    have hname : name ≠ "" := (isListable_iff.1 (h name List.mem_cons_self)).1
    rcases names with - | ⟨next, names⟩
    · simp [join, hname] at he
    · simp [join, hname] at he

/-- **Splitting undoes joining**, for every list of names that can be listed. -/
theorem parse?_join {names : List String} (h : ∀ name ∈ names, isListable name = true) :
    parse? (join names) = some names := by
  rcases eq_or_ne names [] with rfl | hne
  · rfl
  -- The pieces are the names: no comma stands in a name, and there is at least one name.
  have hpieces : (splitCommas (join names).toList).map String.ofList = names := by
    have hcomma : ∀ l ∈ names.map String.toList, ',' ∉ l := by
      intro l hl
      obtain ⟨name, hname, rfl⟩ := List.mem_map.1 hl
      exact (isListable_iff.1 (h name hname)).2
    rw [splitCommas_eq_splitOn, toList_join,
      List.splitOn_intercalate ',' hcomma (by simpa using hne)]
    simp
  -- So neither the joined text nor one of the pieces is what the parser treats apart.
  have hfull : names.any String.isEmpty = false := by
    rw [List.any_eq_false]
    intro name hname
    simpa using (isListable_iff.1 (h name hname)).1
  have hjoin : (join names).isEmpty = false := by
    simpa using join_ne_empty hne h
  simp only [parse?, hjoin, hpieces, hfull, Bool.false_eq_true, if_false]

/-- **A text is parsed as a list of names exactly if the names can be listed and the text is what
they join to.** -/
theorem parse?_eq_some_iff {s : String} {names : List String} :
    parse? s = some names ↔ (∀ name ∈ names, isListable name = true) ∧ join names = s := by
  refine ⟨fun h ↦ ?_, fun ⟨hlist, hjoin⟩ ↦ hjoin ▸ parse?_join hlist⟩
  rw [parse?] at h
  split at h
  · rename_i hempty
    obtain rfl := Option.some.inj h
    have hs : s = "" := by simpa using hempty
    exact ⟨by simp, hs.symm⟩
  · dsimp only at h
    split at h
    · cases h
    · rename_i hfull
      obtain rfl := Option.some.inj h
      constructor
      · intro name hname
        obtain ⟨piece, hpiece, rfl⟩ := List.mem_map.1 hname
        refine isListable_iff.2 ⟨fun he ↦ hfull (List.any_eq_true.2 ⟨_, hname, ?_⟩), ?_⟩
        · rw [he]
          rfl
        · rw [String.toList_ofList]
          exact Text.not_mem_of_mem_splitOn (splitCommas_eq_splitOn _ ▸ hpiece)
      · -- The pieces joined are the text, and joining texts joins their characters.
        rw [← String.toList_inj, join, String.toList_intercalate, List.map_map]
        have hchars : String.toList ∘ String.ofList = id := funext fun _ ↦ String.toList_ofList
        rw [hchars, List.map_id, splitCommas_eq_splitOn]
        exact List.intercalate_splitOn ','

/-! ### What is written -/

@[simp] theorem complete_emitRest (names : List String) : (emitRest names).complete = true := by
  induction names with
  | nil => rfl
  | cons name names ih =>
    rw [emitRest] at ih ⊢
    simp [ih]

@[simp] theorem complete_emitNames (names : List String) : (emitNames names).complete = true := by
  cases names <;> simp [emitNames]

theorem bytes_emitRest_cons (name : String) (names : List String) :
    (emitRest (name :: names)).bytes = 0x2c :: (utf8 name ++ (emitRest names).bytes) := by
  show (Emission.byte 0x2c ++ Emission.text name ++ emitRest names).bytes = _
  rw [Emission.bytes_append (by simp), Emission.bytes_append (by simp)]
  simp

/-- The loop that writes the names writes the joined names. -/
theorem bytes_emitNames (names : List String) : (emitNames names).bytes = utf8 (join names) := by
  rcases names with - | ⟨name, names⟩
  · rfl
  rw [emitNames, Emission.bytes_append (Emission.complete_text name), Emission.bytes_text]
  -- The loop writes a comma before every name but the first, so the first name is left general.
  induction names generalizing name with
  | nil => simp [emitRest, join]
  | cons next names ih =>
    have hjoin : join (name :: next :: names) = name ++ "," ++ join (next :: names) := by
      simp [join]
    rw [bytes_emitRest_cons, hjoin, utf8_append, utf8_append, ← ih, List.append_assoc]
    rfl

/-- **The length that is computed beforehand is the length of what is written.** -/
theorem joinedSize_eq (names : List String) : joinedSize names = (utf8 (join names)).length := by
  induction names with
  | nil => rfl
  | cons name names ih =>
    rcases names with - | ⟨next, names⟩
    · simp [joinedSize, join]
    · have hjoin : join (name :: next :: names) = name ++ "," ++ join (next :: names) := by
        simp [join]
      have hcomma : (utf8 ",").length = 1 := rfl
      rw [hjoin, utf8_append, utf8_append, List.length_append, List.length_append, ← ih, hcomma]
      simp only [joinedSize, List.length_cons, List.foldr_cons]
      omega

/-- **A name list is written exactly if it can travel.** -/
theorem complete_emission_iff {names : List String} :
    (emission names).complete = true ↔ Travels names := by
  have hshort : joinedSize names ≤ 0xffffffff ↔
      (utf8 (",".intercalate names)).length ≤ 0xffffffff := by
    rw [joinedSize_eq, join]
  constructor
  · intro h
    by_cases hall : names.all isListable = true
    · have hlist := List.all_eq_true.1 hall
      simp only [emission, hall, if_true, Emission.complete_append, Emission.complete_length,
        complete_emitNames, Bool.and_true, decide_eq_true_eq] at h
      exact ⟨fun name hn ↦ (isListable_iff.1 (hlist name hn)).1,
        fun name hn ↦ (isListable_iff.1 (hlist name hn)).2, hshort.1 h⟩
    · simp [emission, hall] at h
  · intro h
    have hall : names.all isListable = true := List.all_eq_true.2 h.isListable
    simp [emission, hall, hshort.2 h.short]

/-- Whether a list can travel is decided by writing it. -/
instance (names : List String) : Decidable (Travels names) :=
  decidable_of_iff _ complete_emission_iff

/-- What is written of a list that can travel: the length of the joined names, and the joined
names. -/
theorem bytes_emission {names : List String} (h : Travels names) :
    (emission names).bytes =
      bigEndian 4 (utf8 (join names)).length ++ utf8 (join names) := by
  have hall : names.all isListable = true := List.all_eq_true.2 h.isListable
  have hshort : joinedSize names ≤ 0xffffffff := (joinedSize_eq names).trans_le h.short
  rw [emission, if_pos hall, Emission.bytes_append (by simpa using hshort),
    Emission.bytes_length hshort, bytes_emitNames, joinedSize_eq]

end SecureShell.Wire.NameList

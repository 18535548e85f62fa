import SecureShell.Key.Format
import SecureShell.Proofs.Bytes.Base64
import SecureShell.Proofs.Text.Blank
import SecureShell.Proofs.Wire.Reader

/-!
# Which key a line denotes

A line starts with the name that its key starts with. The name is any text that the key's first
frame holds, and it is not quoted. So a line says where its name ends only if the name is a word
(`Identity.WellNamed`), and such keys come back (`decode?_encode`). All others do not, since what a
reader takes for a name is always a word (`wellNamed_of_decode?`): their lines are refused or denote
another key. The second does happen. A name may hold the whole line of another key, and a line that
starts with such a name denotes that key (`decode?_encode_disguise`). What has been read of any
text, on the other hand, can be written as a line and read again.
-/

namespace SecureShell

namespace Identity

/-- The name that a key starts with is a word: there is one, and there is no blank in it. -/
def WellNamed (k : Identity) : Prop := Text.IsWord k.algorithm.toList

instance : DecidablePred WellNamed := fun k ↦
  inferInstanceAs (Decidable (Text.IsWord k.algorithm.toList))

theorem WellNamed.blob_ne_nil {k : Identity} (h : k.WellNamed) : k.blob ≠ [] := by
  intro hnil
  have hname : k.algorithm.toList = [] := by
    rw [algorithm, hnil]
    rfl
  exact h.1 hname

/-- The key that holds a name and nothing else. -/
def ofName (name : String) : Identity := ⟨bigEndian 4 (utf8 name).length ++ utf8 name⟩

theorem blob_ofName_ne_nil (name : String) : (ofName name).blob ≠ [] := by
  refine List.ne_nil_of_length_pos ?_
  rw [ofName, List.length_append, length_bigEndian]
  omega

theorem algorithm_ofName {name : String} (h : (utf8 name).length ≤ 0xffffffff) :
    (ofName name).algorithm = name := by
  rw [algorithm, ofName, (Wire.Reads.framedText h).run_eq]
  rfl

end Identity

namespace KeyLine

/-! ### The parts of a line -/

/-- Two words and what follows them are the parts of a line, but for blanks at its end. -/
theorem parts_eq {line : String} {first second rest : List Char} (hfirst : Text.IsWord first)
    (hsecond : Text.IsWord second)
    (hline : Text.trim line.toList = Text.trim (first ++ [' '] ++ second ++ ' ' :: rest)) :
    parts line = (first, some second, rest.rdropWhile Text.isBlank) := by
  have hcut : (' ' :: rest).rdropWhile Text.isBlank =
      if rest.rdropWhile Text.isBlank = [] then [] else ' ' :: rest.rdropWhile Text.isBlank :=
    Text.rdropWhile_append Text.isBlank [' '] rest
  -- The blank after the second word is gone if only blanks follow, and then there is no third part.
  have hsplit : ∃ tail,
      Text.splitBlank (second ++ (' ' :: rest).rdropWhile Text.isBlank) = (second, tail) ∧
        tail.getD [] = rest.rdropWhile Text.isBlank := by
    rw [hcut]
    split
    · rename_i hnil
      refine ⟨none, ?_, hnil.symm⟩
      rw [Text.splitBlank_append hsecond.2]
      show (second ++ [], none) = _
      rw [List.append_nil]
    · exact ⟨some _, Text.splitBlank_word hsecond _, rfl⟩
  obtain ⟨tail, hsplit, htail⟩ := hsplit
  rw [parts, hline, Text.trim_words hfirst hsecond, List.append_assoc, List.append_assoc,
    List.singleton_append, Text.splitBlank_word hfirst]
  show (first, some (Text.splitBlank _).1, (Text.splitBlank _).2.getD []) = _
  rw [hsplit, htail]

/-- The first part of a line has no blanks. -/
theorem not_isBlank_of_mem_parts {line : String} {c : Char} (h : c ∈ (parts line).1) :
    Text.isBlank c = false := by
  have hfirst : (parts line).1 = (Text.splitBlank (Text.trim line.toList)).1 := by
    rw [parts]
    rcases Text.splitBlank (Text.trim line.toList) with ⟨first, - | rest⟩ <;> rfl
  rw [hfirst] at h
  exact Text.not_isBlank_of_mem_splitBlank h

/-- A line is read if its first part is the name of the key that its second part spells. -/
theorem decode?_eq_some_iff {line : String} {k : Identity} {text : String} :
    decode? line = some (k, text) ↔
      ∃ second rest, parts line = (k.algorithm.toList, some second, rest) ∧
        k.algorithm.toList ≠ [] ∧ Base64.decode? (String.ofList second) = some k.blob ∧
        text = String.ofList (Text.trim rest) := by
  rw [decode?]
  rcases parts line with ⟨first, second, rest⟩
  constructor
  · intro h
    simp only [Option.bind_eq_bind] at h
    split at h
    · cases h
    · rename_i hfirst
      obtain ⟨word, hword, hdecoded⟩ := Option.bind_eq_some_iff.1 h
      obtain ⟨blob, hblob, hkey⟩ := Option.bind_eq_some_iff.1 hdecoded
      split at hkey
      · rename_i hname
        cases hkey
        rw [hname, String.toList_ofList, hword]
        exact ⟨word, rest, rfl, fun hnil ↦ hfirst (List.isEmpty_iff.2 hnil), hblob, rfl⟩
      · cases hkey
  · rintro ⟨word, tail, hparts, hname, hblob, rfl⟩
    cases hparts
    simp [hname, hblob]

/-- What is read as the name of a key is a word. -/
theorem wellNamed_of_decode? {line : String} {k : Identity} {text : String}
    (h : decode? line = some (k, text)) : k.WellNamed := by
  obtain ⟨second, rest, hparts, hname, -, -⟩ := decode?_eq_some_iff.1 h
  have hfirst : (parts line).1 = k.algorithm.toList := congrArg Prod.fst hparts
  exact ⟨hname, fun c hc ↦ not_isBlank_of_mem_parts (hfirst ▸ hc)⟩

/-! ### Lines that are written -/

/-- An empty comment and the blank before it are not written, which makes no difference once the
line is trimmed. -/
theorem trim_encode (k : Identity) (comment : String) :
    Text.trim (encode k comment).toList =
      Text.trim (k.algorithm.toList ++ [' '] ++ (Base64.encode k.blob).toList ++
        ' ' :: comment.toList) := by
  have hblank : ∀ c ∈ [' '], Text.isBlank c = true := List.forall_mem_singleton.2 rfl
  rw [encode]
  split
  · rename_i hempty
    rw [String.isEmpty_iff.1 hempty, String.toList_empty, Text.trim_append_of_blank hblank]
    simp
  · simp

/-- A comment follows the line without one. -/
theorem encode_of_ne_empty (k : Identity) {comment : String} (h : comment ≠ "") :
    encode k comment = encode k "" ++ " " ++ comment :=
  if_neg (mt String.isEmpty_iff.1 h)

/-- **The line of a key whose name is a word is read as that key**, with the comment trimmed. -/
theorem decode?_encode {k : Identity} (h : k.WellNamed) (comment : String) :
    decode? (encode k comment) = some (k, String.ofList (Text.trim comment.toList)) := by
  refine decode?_eq_some_iff.2 ⟨_, _,
    parts_eq h (Base64.isWord_encode h.blob_ne_nil) (trim_encode k comment), h.1, ?_, ?_⟩
  · rw [String.ofList_toList, Base64.decode?_encode]
  · rw [Text.trim_rdropWhile]

/-! ### Names that hold a line -/

/-- The key whose name is the line of another key. -/
def disguise (k : Identity) : Identity := .ofName (encode k "")

section Disguise

variable {k : Identity} (hfits : (utf8 (encode k "")).length ≤ 0xffffffff)

include hfits

theorem algorithm_disguise : (disguise k).algorithm = encode k "" :=
  Identity.algorithm_ofName hfits

/-- The name of the disguise has a blank in it, the one after the name of the key. -/
theorem not_wellNamed_disguise : ¬ (disguise k).WellNamed := by
  intro h
  have hblank : Text.isBlank ' ' = false := by
    refine h.2 ' ' ?_
    rw [algorithm_disguise hfits, encode]
    simp
  cases hblank

/-- A line of the disguise is a line of the key with a comment. The bytes of the disguise have
become the comment's first word. -/
theorem encode_disguise (comment : String) :
    ∃ text, encode (disguise k) comment = encode k text := by
  have hword : Base64.encode (disguise k).blob ≠ "" := fun hnil ↦
    (Base64.isWord_encode (Identity.blob_ofName_ne_nil _)).1 (String.toList_eq_nil_iff.2 hnil)
  rw [encode, algorithm_disguise hfits]
  split
  · exact ⟨_, (encode_of_ne_empty k hword).symm⟩
  · have hlong : Base64.encode (disguise k).blob ++ (" " ++ comment) ≠ "" := fun hnil ↦
      hword (String.append_eq_empty_iff.1 hnil).1
    refine ⟨_, Eq.trans ?_ (encode_of_ne_empty k hlong).symm⟩
    simp only [String.append_assoc]

/-- **Every key whose name is a word is denoted by the lines of another key**, whatever comment they
have, unless its own line is longer than a name can be. -/
theorem decode?_encode_disguise (h : k.WellNamed) (comment : String) :
    disguise k ≠ k ∧ ∃ text, decode? (encode (disguise k) comment) = some (k, text) := by
  obtain ⟨text, htext⟩ := encode_disguise hfits comment
  rw [htext]
  exact ⟨fun heq ↦ not_wellNamed_disguise hfits (by rwa [heq]), _, decode?_encode h text⟩

end Disguise

/-! ### The format -/

theorem decode_eq_ok_iff {line : String} {r : Identity × String} :
    format.decode line = .ok r ↔ decode? line = some r := by
  simp only [format]
  cases decode? line with
  | none => simp
  | some r' => simp

/-- **Lines and keys go back and forth.** The line of a key whose name is a word is read as that
key, with the comment trimmed; and what has been read of any text is written as a line that is read
as the same again. -/
theorem format_roundTrip :
    (∀ k comment, k.WellNamed → ∃ text, Text.Trimmed comment.toList text.toList ∧
      format.decode (format.encode k comment) = .ok (k, text)) ∧
    ∀ line k text, format.decode line = .ok (k, text) →
      format.decode (format.encode k text) = .ok (k, text) := by
  refine ⟨fun k comment h ↦ ?_, fun line k text h ↦ ?_⟩
  · refine ⟨_, ?_, decode_eq_ok_iff.2 (decode?_encode h comment)⟩
    rw [String.toList_ofList]
    exact Text.trimmed_trim _
  · have hread := decode_eq_ok_iff.1 h
    obtain ⟨second, rest, -, -, -, rfl⟩ := decode?_eq_some_iff.1 hread
    have hagain := decode?_encode (wellNamed_of_decode? hread) (String.ofList (Text.trim rest))
    rw [String.toList_ofList, Text.trim_trim] at hagain
    exact decode_eq_ok_iff.2 hagain

/-- A comment of two words between blanks. The key comes back with the two words, and once it has
been read its line is read as the same again. -/
theorem format_roundTrip_comment :
    let k := Identity.ofName "ssh-rsa"
    k.WellNamed ∧ (∃ text, Text.Trimmed "  me\u00a0here\t".toList text.toList ∧
        format.decode (format.encode k "  me\u00a0here\t") = .ok (k, text)) ∧
      format.decode "ssh-rsa AAAAB3NzaC1yc2E= \tme here " = .ok (k, "me here") ∧
      format.decode (format.encode k "me here") = .ok (k, "me here") := by
  intro k
  have hname : k.WellNamed := by decide
  have hread : format.decode "ssh-rsa AAAAB3NzaC1yc2E= \tme here " = .ok (k, "me here") :=
    decode_eq_ok_iff.2 (by decide)
  exact ⟨hname, format_roundTrip.1 k _ hname, hread, format_roundTrip.2 _ _ _ hread⟩

/-- **A key comes back from its line exactly if its name is a word.** Then it does so with every
comment. Otherwise what comes back, if anything does, is another key. -/
theorem format_returns_key_iff (k : Identity) (comment : String) :
    (k.WellNamed → ∃ text, format.decode (format.encode k comment) = .ok (k, text)) ∧
      ∀ other text, format.decode (format.encode k comment) = .ok (other, text) →
        (other = k ↔ k.WellNamed) := by
  have hreturns : ∀ h : k.WellNamed, format.decode (format.encode k comment) =
      .ok (k, String.ofList (Text.trim comment.toList)) := fun h ↦
    decode_eq_ok_iff.2 (decode?_encode h comment)
  refine ⟨fun h ↦ ⟨_, hreturns h⟩, fun other text hother ↦ ⟨?_, fun h ↦ ?_⟩⟩
  · rintro rfl
    exact wellNamed_of_decode? (decode_eq_ok_iff.1 hother)
  · rw [hreturns h] at hother
    cases hother
    rfl

/-- A key with a name and nothing else, and a comment that looks like the fields of a line. -/
theorem format_returns_key_iff_rsa :
    let k := Identity.ofName "ssh-rsa"
    k.WellNamed ∧ (∃ text, format.decode (format.encode k " X AAAAAVg= ") = .ok (k, text)) ∧
      ∀ other text, format.decode (format.encode k " X AAAAAVg= ") = .ok (other, text) →
        other = k := by
  intro k
  have hname : k.WellNamed := by decide
  obtain ⟨hreturns, hsame⟩ := format_returns_key_iff k " X AAAAAVg= "
  exact ⟨hname, hreturns hname, fun other text h ↦ (hsame other text h).2 hname⟩

/-- **The line of a key that denotes another key**: the name is two words, and the second one spells
the other key, which starts with the first. -/
theorem line_denotes_other_key :
    let k : Identity := ⟨[0, 0, 0, 10, 88, 32, 65, 65, 65, 65, 65, 86, 103, 61]⟩
    let other : Identity := ⟨[0, 0, 0, 1, 88]⟩
    k.algorithm = "X AAAAAVg=" ∧ other.algorithm = "X" ∧ k ≠ other ∧
      format.encode k "" = "X AAAAAVg= AAAAClggQUFBQUFWZz0=" ∧
      format.decode (format.encode k "") = .ok (other, "AAAAClggQUFBQUFWZz0=") := by
  intro k other
  refine ⟨by decide, by decide, by decide, by decide, ?_⟩
  exact decode_eq_ok_iff.2 (by decide)

end KeyLine

end SecureShell

import SecureShell.Text.Blank
import Mathlib.Data.List.DropRight

/-!
# Words and blanks

Trimming takes blanks away at the two ends of a text and nowhere else. So a text that starts with a
word, and has another word in it, keeps all up to that other word; what follows loses blanks at its
end (`rdropWhile_append` says how far back that goes). What a text is trimmed to is said apart from
the steps of trimming (`Trimmed`). The first word of a text is found again when it was put in front
with a blank after it.
-/

namespace SecureShell.Text

/-- A text is a word if there is something in it and no blank. -/
def IsWord (cs : List Char) : Prop := cs ≠ [] ∧ ∀ c ∈ cs, isBlank c = false

instance : DecidablePred IsWord := fun cs ↦
  decidable_of_iff ((!cs.isEmpty && cs.all fun c ↦ !isBlank c) = true) (by simp [IsWord])

/-! ### Trimming -/

/-- Removing from the end goes on into what stands in front if nothing is left behind it. -/
theorem rdropWhile_append {α : Type} (p : α → Bool) (l r : List α) :
    (l ++ r).rdropWhile p =
      if r.rdropWhile p = [] then l.rdropWhile p else l ++ r.rdropWhile p := by
  simp only [List.rdropWhile, List.reverse_append, List.dropWhile_append, List.isEmpty_iff,
    List.reverse_eq_nil_iff]
  split
  · rfl
  · rw [List.reverse_append, List.reverse_reverse]

/-- What stands in front stays if it ends in nothing that is removed. -/
theorem rdropWhile_append_of_eq {α : Type} {p : α → Bool} {l : List α} (h : l.rdropWhile p = l)
    (r : List α) : (l ++ r).rdropWhile p = l ++ r.rdropWhile p := by
  rw [rdropWhile_append]
  split
  · rename_i hnil
    rw [h, hnil, List.append_nil]
  · rfl

theorem trim_eq_rdropWhile (cs : List Char) :
    trim cs = (cs.dropWhile isBlank).rdropWhile isBlank := rfl

/-- Blanks at the end do not matter. -/
theorem trim_append_of_blank {cs blanks : List Char} (h : ∀ c ∈ blanks, isBlank c = true) :
    trim (cs ++ blanks) = trim cs := by
  have hend : blanks.rdropWhile isBlank = [] := List.rdropWhile_eq_nil_iff.2 h
  rw [trim_eq_rdropWhile, trim_eq_rdropWhile, List.dropWhile_append]
  split
  · rename_i hnil
    rw [List.dropWhile_eq_nil_iff.2 h, List.isEmpty_iff.1 hnil]
  · rw [rdropWhile_append, if_pos hend]

/-- A text that has lost the blanks at its end is trimmed to what it was trimmed to before. -/
theorem trim_rdropWhile (cs : List Char) : trim (cs.rdropWhile isBlank) = trim cs := by
  conv_rhs => rw [← List.rdropWhile_append_rtakeWhile (p := isBlank) (l := cs)]
  exact (trim_append_of_blank fun _ ↦ List.mem_rtakeWhile_imp).symm

/-- **What trimming is**: `t` is `cs` without the blanks at both ends, and there are none left. -/
structure Trimmed (cs t : List Char) : Prop where
  /-- Nothing but blanks is taken away, and only at the ends. -/
  removed : ∃ front back, cs = front ++ t ++ back ∧ (∀ c ∈ front, isBlank c = true) ∧
    ∀ c ∈ back, isBlank c = true
  /-- What is left does not start with a blank. -/
  starts : ∀ c rest, t = c :: rest → isBlank c = false
  /-- Nor does it end with one. -/
  ends : ∀ rest c, t = rest ++ [c] → isBlank c = false

theorem trimmed_trim (cs : List Char) : Trimmed cs (trim cs) where
  removed := by
    refine ⟨cs.takeWhile isBlank, (cs.dropWhile isBlank).rtakeWhile isBlank, ?_,
      fun _ ↦ List.mem_takeWhile_imp, fun _ ↦ List.mem_rtakeWhile_imp⟩
    rw [trim_eq_rdropWhile, List.append_assoc, List.rdropWhile_append_rtakeWhile,
      List.takeWhile_append_dropWhile]
  starts c rest h := by
    -- The first character that is left is the first that is no blank.
    obtain ⟨tail, htail⟩ : trim cs <+: cs.dropWhile isBlank := List.rdropWhile_prefix _ _
    rw [h] at htail
    have hhead := List.head?_dropWhile_not isBlank cs
    rwa [← htail] at hhead
  ends rest c h := by
    have hlast := List.rdropWhile_last_not isBlank (cs.dropWhile isBlank)
    rw [← trim_eq_rdropWhile, h] at hlast
    simpa using hlast

/-- There is one text only that another one is trimmed to. -/
theorem Trimmed.trim_eq {cs t : List Char} (h : Trimmed cs t) : trim cs = t := by
  obtain ⟨front, back, rfl, hfront, hback⟩ := h.removed
  have hstart : t.dropWhile isBlank = t := by
    rcases t with - | ⟨c, t⟩
    · rfl
    · exact List.dropWhile_cons_of_neg (Bool.eq_false_iff.1 (h.starts c t rfl))
  have hend : t.rdropWhile isBlank = t := by
    rcases List.eq_nil_or_concat' t with rfl | ⟨t, c, rfl⟩
    · rfl
    · exact List.rdropWhile_concat_neg _ _ _ (Bool.eq_false_iff.1 (h.ends t c rfl))
  rw [trim_append_of_blank hback, trim_eq_rdropWhile, List.dropWhile_append_of_pos hfront,
    hstart, hend]

/-- What is trimmed stays as it is when it is trimmed again. -/
theorem trim_trim (cs : List Char) : trim (trim cs) = trim cs :=
  Trimmed.trim_eq ⟨⟨[], [], by simp⟩, (trimmed_trim cs).starts, (trimmed_trim cs).ends⟩

/-- **Two words keep what is between them.** Only what follows the second one loses blanks, and only
at its end. -/
theorem trim_words {first second : List Char} (hfirst : IsWord first) (hsecond : IsWord second)
    (between rest : List Char) :
    trim (first ++ between ++ second ++ rest) =
      first ++ between ++ second ++ rest.rdropWhile isBlank := by
  have hstart : (first ++ between ++ second ++ rest).dropWhile isBlank =
      first ++ between ++ second ++ rest := by
    rcases first with - | ⟨c, first⟩
    · exact (hfirst.1 rfl).elim
    · exact List.dropWhile_cons_of_neg (Bool.eq_false_iff.1 (hfirst.2 c List.mem_cons_self))
  have hend : (first ++ between ++ second).rdropWhile isBlank = first ++ between ++ second := by
    refine List.rdropWhile_eq_self_iff.2 fun hne ↦ ?_
    rw [List.getLast_append_of_ne_nil hne hsecond.1,
      hsecond.2 _ (List.getLast_mem hsecond.1)]
    exact Bool.false_ne_true
  rw [trim_eq_rdropWhile, hstart, rdropWhile_append_of_eq hend]

/-! ### First words -/

/-- Characters that are no blanks belong to the first word if they are put in front. -/
theorem splitBlank_append {word : List Char} (h : ∀ c ∈ word, isBlank c = false)
    (rest : List Char) :
    splitBlank (word ++ rest) = (word ++ (splitBlank rest).1, (splitBlank rest).2) := by
  induction word with
  | nil => rfl
  | cons c word ih =>
    rw [List.cons_append, splitBlank, h c List.mem_cons_self,
      ih fun d hd ↦ h d (List.mem_cons_of_mem c hd)]
    rfl

/-- A word is split off at the blank that follows it. -/
theorem splitBlank_word {word : List Char} (h : IsWord word) (rest : List Char) :
    splitBlank (word ++ ' ' :: rest) = (word, some rest) := by
  rw [splitBlank_append h.2]
  show (word ++ [], some rest) = _
  rw [List.append_nil]

/-- There is no blank in the first word of a text. -/
theorem not_isBlank_of_mem_splitBlank {cs : List Char} {c : Char} (h : c ∈ (splitBlank cs).1) :
    isBlank c = false := by
  induction cs with
  | nil => cases h
  | cons d cs ih =>
    rw [splitBlank] at h
    split at h
    · cases h
    · rename_i hd
      rcases List.mem_cons.1 h with rfl | h
      · exact Bool.eq_false_iff.2 hd
      · exact ih h

end SecureShell.Text

import Mathlib.Algebra.Order.Group.Nat
import Mathlib.Data.List.Induction
import Mathlib.Tactic.Ring

/-!
# Lines

A text that was put together from lines is taken apart again at its line feeds. This gives the lines
back if none of them holds a line feed (`lines_intercalate`), and one line more for each line feed
that one of them does hold (`length_lines_intercalate`).
-/

namespace SecureShell.Text

section Split

variable {α : Type} [DecidableEq α]

/-- What a list is split at is in none of the pieces. -/
theorem not_mem_of_mem_splitOn {x : α} {l piece : List α} (h : piece ∈ l.splitOn x) :
    x ∉ piece := by
  induction l generalizing piece with
  | nil =>
    obtain rfl := List.mem_singleton.1 h
    exact List.not_mem_nil
  | cons y l ih =>
    rw [List.splitOn_cons_eq_if_modifyHead] at h
    split at h
    · rcases List.mem_cons.1 h with rfl | hrest
      · exact List.not_mem_nil
      · exact ih hrest
    · rename_i hy
      have hne : x ≠ y := fun he ↦ hy (beq_iff_eq.2 he.symm)
      rcases hs : l.splitOn x with - | ⟨first, pieces⟩
      · rw [hs] at h
        cases h
      · rw [hs] at h ih
        rcases List.mem_cons.1 h with rfl | hrest
        · rw [List.mem_cons, not_or]
          exact ⟨hne, ih List.mem_cons_self⟩
        · exact ih (List.mem_cons_of_mem first hrest)

/-- There is one piece more than there are places to split at. -/
theorem length_splitOn (x : α) (l : List α) : (l.splitOn x).length = l.count x + 1 := by
  induction l with
  | nil => rfl
  | cons y l ih =>
    rw [List.splitOn_cons_eq_if_modifyHead, List.count_cons]
    split
    · rw [List.length_cons, ih]
    · rw [List.length_modifyHead, ih]

/-- Joining lists counts the separators in. -/
theorem count_intercalate (x : α) (sep : List α) (ls : List (List α)) :
    (sep.intercalate ls).count x =
      (ls.length - 1) * sep.count x + (ls.map fun l ↦ l.count x).sum := by
  induction ls with
  | nil => simp
  | cons l ls ih =>
    rcases ls with - | ⟨next, ls⟩
    · simp
    · rw [List.intercalate_cons_cons, List.count_append, List.count_append, ih]
      simp only [List.length_cons, List.map_cons, List.sum_cons, Nat.add_sub_cancel]
      ring

end Split

/-- The lines of a text: the pieces between its line feeds. -/
def lines (s : String) : List String := (s.toList.splitOn '\n').map String.ofList

/-- There is no line feed in a line. -/
theorem not_mem_of_mem_lines {s line : String} (h : line ∈ lines s) : '\n' ∉ line.toList := by
  obtain ⟨piece, hpiece, rfl⟩ := List.mem_map.1 h
  rw [String.toList_ofList]
  exact not_mem_of_mem_splitOn hpiece

theorem toList_intercalate_lines (ls : List String) :
    ("\n".intercalate ls).toList = ['\n'].intercalate (ls.map String.toList) :=
  String.toList_intercalate

variable {ls : List String}

/-- **Lines that are joined are found again** if there is no line feed in any of them. -/
theorem lines_intercalate (hne : ls ≠ []) (h : ∀ line ∈ ls, '\n' ∉ line.toList) :
    lines ("\n".intercalate ls) = ls := by
  have hpieces : ∀ l ∈ ls.map String.toList, '\n' ∉ l := by
    intro l hl
    obtain ⟨line, hline, rfl⟩ := List.mem_map.1 hl
    exact h line hline
  rw [lines, toList_intercalate_lines, List.splitOn_intercalate '\n' hpieces (by simpa using hne)]
  simp

/-- **Each line feed in a line that is joined makes a line of its own.** -/
theorem length_lines_intercalate (hne : ls ≠ []) :
    (lines ("\n".intercalate ls)).length =
      ls.length + (ls.map fun line ↦ line.toList.count '\n').sum := by
  have hpos : 0 < ls.length := List.length_pos_iff.2 hne
  have hone : (['\n'] : List Char).count '\n' = 1 := rfl
  rw [lines, List.length_map, length_splitOn, toList_intercalate_lines, count_intercalate, hone,
    List.length_map, List.map_map]
  show (ls.length - 1) * 1 + (ls.map fun line ↦ line.toList.count '\n').sum + 1 = _
  omega

end SecureShell.Text

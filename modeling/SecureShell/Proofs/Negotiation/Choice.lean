import SecureShell.Negotiation.Choice
import Mathlib.Data.List.Induction

/-!
# Choosing algorithms: preference and common choice

Moving a name to the front is erasing its first occurrence and putting it in front
(`moveToFront_eq`). What two sides have in common depends on the server only through which names it
has (`commonAlgorithm_congr`), and for a client list that starts with a name that every server has
it is decided by the preference alone (`commonAlgorithm_moveToFront`).
-/

namespace SecureShell

/-! ### Moving a name to the front

A pass over the names places one after the other. What it has made of those that it has met is known
at every moment (`Ranking.met`): the preferred name is in front if it is one of them, and the rest
is what is left of them without its first occurrence. -/

namespace Ranking

/-- What a pass has made of the names that it has met. -/
def met (preferred : String) (seen : List String) : Ranking :=
  ⟨if preferred ∈ seen then [preferred] else [], seen.erase preferred⟩

/-- One more name is met. -/
theorem place_met (preferred : String) (seen : List String) (name : String) :
    (met preferred seen).place preferred name = met preferred (seen ++ [name]) := by
  by_cases hseen : preferred ∈ seen
  · -- The front is taken, so a further occurrence goes behind like any other name.
    simp [met, place, hseen, List.erase_append_left]
  · by_cases hname : name = preferred
    · subst hname
      simp [met, place, hseen, List.erase_append_right, List.erase_of_not_mem]
    · have hname' : ¬preferred = name := fun h ↦ hname h.symm
      simp [met, place, hseen, hname, hname', List.erase_of_not_mem]

/-- **A pass has met all names in the end.** -/
theorem foldl_place (preferred : String) (names : List String) :
    names.foldl (place preferred) empty = met preferred names := by
  induction names using List.reverseRecOn with
  | nil => rfl
  | append_singleton seen name ih =>
    rw [List.foldl_append, ih]
    exact place_met preferred seen name

end Ranking

theorem moveToFront_eq (names : List String) (preferred : String) :
    moveToFront names preferred =
      if preferred ∈ names then preferred :: names.erase preferred else names := by
  rw [moveToFront, Ranking.foldl_place]
  by_cases h : preferred ∈ names
  · simp [Ranking.met, Ranking.names, h]
  · simp [Ranking.met, Ranking.names, h, List.erase_of_not_mem]

/-- Moving a name to the front changes the order only. -/
theorem moveToFront_perm (names : List String) (preferred : String) :
    (moveToFront names preferred).Perm names := by
  rw [moveToFront_eq]
  split
  · rename_i h
    exact (List.perm_cons_erase h).symm
  · exact List.Perm.refl names

/-! ### What two sides have in common -/

/-- What two sides have in common is a name of both. -/
theorem mem_of_commonAlgorithm {client server : List String} {name : String}
    (h : commonAlgorithm client server = some name) : name ∈ client ∧ name ∈ server :=
  ⟨List.mem_of_find?_eq_some h, List.contains_iff_mem.1 (List.find?_some h)⟩

/-- The server counts only for which names it has. -/
theorem commonAlgorithm_congr {client server server' : List String}
    (h : ∀ n, n ∈ server' ↔ n ∈ server) :
    commonAlgorithm client server' = commonAlgorithm client server := by
  have hcontains : (fun name ↦ server'.contains name) = fun name ↦ server.contains name := by
    funext name
    rw [Bool.eq_iff_iff, List.contains_iff_mem, List.contains_iff_mem, h]
  rw [commonAlgorithm, commonAlgorithm, hcontains]

/-- **The preferred name if both sides have it, and otherwise the name that both have in front.** -/
theorem commonAlgorithm_moveToFront {first : String} {rest server : List String}
    (hfirst : first ∈ server) (preferred : String) :
    commonAlgorithm (moveToFront (first :: rest) preferred) server =
      some (if preferred ∈ first :: rest ∧ preferred ∈ server then preferred else first) := by
  have hhead : ∀ l : List String, commonAlgorithm (first :: l) server = some first := by
    intro l
    simp [commonAlgorithm, hfirst]
  rw [moveToFront_eq]
  by_cases hclient : preferred ∈ first :: rest
  · rw [if_pos hclient]
    by_cases hserver : preferred ∈ server
    · simp [commonAlgorithm, hclient, hserver]
    -- The first name is on the server and so is not the one that was taken out.
    · have hne : first ≠ preferred := fun he ↦ hserver (he ▸ hfirst)
      have hskip : commonAlgorithm (preferred :: first :: rest.erase preferred) server =
          commonAlgorithm (first :: rest.erase preferred) server := by
        simp [commonAlgorithm, hserver]
      rw [List.erase_cons_tail (by simpa using hne), hskip, hhead, if_neg fun h ↦ hserver h.2]
  · rw [if_neg hclient, hhead, if_neg fun h ↦ hclient h.1]

end SecureShell

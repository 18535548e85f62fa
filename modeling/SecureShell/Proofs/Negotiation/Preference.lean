import SecureShell.Negotiation.Offer
import SecureShell.Proofs.Negotiation.Choice

/-!
# Preferred names

What becomes of a list of names when a preferred one is moved to the front, for any list and any
name. Names may be repeated, the preferred one among them, and the empty name is a name like the
others: a registry without entries has it as its default.

The list is cut before the first occurrence, and the two pieces are what keeps its order
(`moveToFront_append_cons`). Together with what happens without an occurrence this determines the
result (`movedToFront_iff`), so nothing else about it has to be said.
-/

namespace SecureShell

variable {names list : List String} {preferred : String}

/-- A list of names with a preferred one moved to the front. -/
structure MovedToFront (names : List String) (preferred : String) (list : List String) : Prop where
  /-- The list has the same names, each as often as before. -/
  perm : list.Perm names
  /-- A preferred name that is none of them has no effect. -/
  of_not_mem : preferred ∉ names → list = names
  /-- Its first occurrence is taken out and put in front. What stood before it and what stood after
  it, further occurrences included, is as it was. -/
  of_mem : preferred ∈ names → ∃ before after, names = before ++ preferred :: after ∧
    preferred ∉ before ∧ list = preferred :: (before ++ after)

/-! ### The two cases -/

theorem moveToFront_of_not_mem (h : preferred ∉ names) : moveToFront names preferred = names := by
  rw [moveToFront_eq, if_neg h]

/-- Only the first occurrence is moved. -/
theorem moveToFront_append_cons {before after : List String} (h : preferred ∉ before) :
    moveToFront (before ++ preferred :: after) preferred = preferred :: (before ++ after) := by
  rw [moveToFront_eq, if_pos (by simp), List.erase_append_right _ h, List.erase_cons_head]

/-- A list that has a name is cut before its first occurrence. -/
theorem exists_first_occurrence (h : preferred ∈ names) :
    ∃ before after, names = before ++ preferred :: after ∧ preferred ∉ before := by
  obtain ⟨before, after, hbefore, hnames, -⟩ := List.exists_erase_eq h
  exact ⟨before, after, hnames, hbefore⟩

/-! ### The result -/

theorem movedToFront_moveToFront (names : List String) (preferred : String) :
    MovedToFront names preferred (moveToFront names preferred) where
  perm := moveToFront_perm names preferred
  of_not_mem := moveToFront_of_not_mem
  of_mem h := by
    obtain ⟨before, after, rfl, hbefore⟩ := exists_first_occurrence h
    exact ⟨before, after, rfl, hbefore, moveToFront_append_cons hbefore⟩

/-- **The laws determine the list.** -/
theorem movedToFront_iff :
    MovedToFront names preferred list ↔ list = moveToFront names preferred := by
  refine ⟨fun h ↦ ?_, fun h ↦ h ▸ movedToFront_moveToFront names preferred⟩
  by_cases hmem : preferred ∈ names
  · obtain ⟨before, after, rfl, hbefore, rfl⟩ := h.of_mem hmem
    exact (moveToFront_append_cons hbefore).symm
  · rw [h.of_not_mem hmem, moveToFront_of_not_mem hmem]

/-- A name that is in front already stays there. -/
theorem moveToFront_cons_self (preferred : String) (rest : List String) :
    moveToFront (preferred :: rest) preferred = preferred :: rest :=
  moveToFront_append_cons List.not_mem_nil

theorem moveToFront_moveToFront (names : List String) (preferred : String) :
    moveToFront (moveToFront names preferred) preferred = moveToFront names preferred := by
  by_cases hmem : preferred ∈ names
  · obtain ⟨before, after, rfl, hbefore⟩ := exists_first_occurrence hmem
    rw [moveToFront_append_cons hbefore, moveToFront_cons_self]
  · rw [moveToFront_of_not_mem hmem, moveToFront_of_not_mem hmem]

/-- **Moving a preferred name to the front is stable.** Of any names, repeated or not, and for any
preferred one, it makes the list that has the same names, with the first occurrence of the preferred
one in front and all else in its order; doing it again changes nothing. A message that is given
other host key algorithms has just this list of them, with the default of the registry as it is at
the time, and is otherwise the message that it was. -/
theorem moveToFront_stable :
    (∀ (names : List String) (preferred : String) (list : List String),
      MovedToFront names preferred list ↔ list = moveToFront names preferred) ∧
    (∀ (names : List String) (preferred : String),
      moveToFront (moveToFront names preferred) preferred = moveToFront names preferred) ∧
    ∀ {σ α : Type} (m : KexInit) (names : List String) (r : Registry σ α),
      (m.setHostKeys names r).hostKey = moveToFront names r.defaultName ∧
        { m.setHostKeys names r with hostKey := m.hostKey } = m :=
  ⟨fun _ _ _ ↦ movedToFront_iff, moveToFront_moveToFront, fun _ _ _ ↦ ⟨rfl, rfl⟩⟩

example : moveToFront ["b", "a", "", "a"] "a" = ["a", "b", "", "a"] ∧
    moveToFront ["b", "", "a", ""] "" = ["", "b", "a", ""] := by
  decide

end SecureShell

/-!
# Rosters

Values listed under names, in the order in which the names came. Putting a value under a name that
is already there replaces the old value and leaves the name where it is.
-/

namespace SecureShell

/-- Values under names, in order. -/
abbrev Roster (α : Type) := List (String × α)

namespace Roster

variable {α : Type}

/-- The names, in order. -/
def names (l : Roster α) : List String := l.map Prod.fst

/-- The value under a name. -/
def get? (l : Roster α) (name : String) : Option α := (l.find? (·.1 == name)).map Prod.snd

/-- Whether a name is listed. -/
def contains (l : Roster α) (name : String) : Bool := l.any (·.1 == name)

/-- Puts a value under a name: in the place of the old value, or else at the end. -/
def put (name : String) (value : α) : Roster α → Roster α
  | [] => [(name, value)]
  | p :: l => if p.1 = name then (name, value) :: l else p :: put name value l

/-! ### Names and look-up after putting -/

theorem contains_iff (l : Roster α) (name : String) : contains l name ↔ name ∈ names l := by
  simp [contains, names]

theorem names_put (l : Roster α) (name : String) (value : α) :
    names (put name value l) = if name ∈ names l then names l else names l ++ [name] := by
  induction l with
  | nil => simp [put, names]
  | cons p l ih =>
    by_cases h : p.1 = name
    · simp [put, names, h]
    · simp only [put, h, if_false]
      simp only [names, List.map_cons, List.mem_cons] at ih ⊢
      rw [ih]
      by_cases hl : name ∈ List.map Prod.fst l
      · simp [hl]
      · simp [hl, Ne.symm h]

theorem get?_put (l : Roster α) (name other : String) (value : α) :
    get? (put name value l) other = if name = other then some value else get? l other := by
  induction l with
  | nil => by_cases h : name = other <;> simp [put, get?, h]
  | cons p l ih =>
    simp only [get?] at ih ⊢
    by_cases h : p.1 = name
    · by_cases hn : name = other <;> simp [put, h, hn]
    · simp only [put, h, if_false]
      by_cases hp : p.1 = other
      · have hn : ¬name = other := fun e ↦ h (hp.trans e.symm)
        simp [hp, hn]
      · simp [hp, ih]

/-! ### Look-up -/

theorem get?_eq_none_iff {l : Roster α} {name : String} :
    get? l name = none ↔ name ∉ names l := by
  rw [get?, Option.map_eq_none_iff, List.find?_eq_none, names, List.mem_map]
  constructor
  · rintro h ⟨p, hp, hname⟩
    exact h p hp (beq_iff_eq.2 hname)
  · intro h p hp hname
    exact h ⟨p, hp, eq_of_beq hname⟩

/-- What is found under a name is listed under it. -/
theorem mem_of_get? {l : Roster α} {name : String} {value : α} (h : get? l name = some value) :
    (name, value) ∈ l := by
  obtain ⟨p, hp, rfl⟩ := Option.map_eq_some_iff.1 h
  have hname := List.find?_some hp
  obtain rfl : p.1 = name := eq_of_beq hname
  exact List.mem_of_find?_eq_some hp

/-- If no name is listed twice, what is found under a name is what is listed under it. -/
theorem get?_eq_some_iff {l : Roster α} (hnodup : (names l).Nodup) {name : String} {value : α} :
    get? l name = some value ↔ (name, value) ∈ l := by
  induction l with
  | nil => simp [get?]
  | cons p l ih =>
    obtain ⟨n, v⟩ := p
    obtain ⟨hn, hl⟩ := List.nodup_cons.1 hnodup
    by_cases h : n = name
    · subst h
      have hnot : ∀ w, (n, w) ∉ l := fun w hw ↦ hn (List.mem_map.2 ⟨_, hw, rfl⟩)
      simp [get?, hnot, eq_comm]
    · have htail : get? ((n, v) :: l) name = get? l name := by simp [get?, h]
      rw [htail, ih hl]
      simp [Ne.symm h]

end Roster

end SecureShell

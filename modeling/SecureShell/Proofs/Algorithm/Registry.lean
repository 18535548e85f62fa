import SecureShell.Algorithm.Discovery
import SecureShell.Proofs.Bytes
import Mathlib.Data.List.Infix

/-!
# Registries: which names there are

What registration, the move of a default and discovery do to the names of a registry. Names are
only ever added at the end, and only names that can be advertised are added (`Extends`); that much
holds whatever the factories do.

Which extensions come to be registered depends on the factories, which run in a state that earlier
factories have changed. What can be said of that is said for factories that always or never succeed
(`Factory.Steady`).
-/

namespace SecureShell

/-- **A name that can be advertised can stand in a name list**: the two checks are different, one of
bytes and one of characters, and the first is the stricter one. -/
theorem listable_of_isAlgorithmName {name : String} (h : isAlgorithmName name = true) :
    name ≠ "" ∧ ',' ∉ name.toList := by
  simp only [isAlgorithmName, Bool.and_eq_true, Bool.not_eq_true', List.all_eq_true] at h
  obtain ⟨⟨hne, -⟩, hall⟩ := h
  refine ⟨?_, fun hcomma ↦ ?_⟩
  · rintro rfl
    cases hne
  -- A comma is a byte of its own in UTF-8, and the check of bytes does not let it pass.
  · have hbyte : (0x2c : UInt8) ∈ utf8 (String.singleton ',') := List.mem_singleton.2 rfl
    have hlegal := hall 0x2c (mem_utf8_of_mem_toList hcomma hbyte)
    exact absurd hlegal.2 (by decide)

/-- A factory that succeeds in every state, or in none. -/
def Factory.Steady {σ α : Type} (f : Factory σ α) : Prop :=
  ∀ s t, (f s).1.isOk = (f t).1.isOk

namespace Registry

variable {σ α : Type}

/-! ### Names after one change -/

/-- A name is accepted if it can be advertised. -/
theorem register_of_valid (r : Registry σ α) {name : String} (h : isAlgorithmName name = true)
    (f : Option (Factory σ α)) :
    r.register name f = (true, { r with
      entries := Roster.put name f r.entries
      defaultName := if r.entries.isEmpty then name else r.defaultName }) :=
  if_pos h

/-- Any other name is refused, and nothing changes. -/
theorem register_of_not_valid (r : Registry σ α) {name : String}
    (h : ¬isAlgorithmName name = true) (f : Option (Factory σ α)) :
    r.register name f = (false, r) :=
  if_neg h

/-- A name is registered if it can be advertised, and once only. -/
theorem names_register (r : Registry σ α) (name : String) (f : Option (Factory σ α)) :
    (r.register name f).2.names =
      if isAlgorithmName name = true ∧ name ∉ r.names then r.names ++ [name] else r.names := by
  by_cases hvalid : isAlgorithmName name = true
  · rw [register_of_valid r hvalid]
    have hput : Roster.names (Roster.put name f r.entries) =
        if name ∈ r.names then r.names else r.names ++ [name] := Roster.names_put _ _ _
    refine hput.trans ?_
    by_cases hmem : name ∈ r.names
    · rw [if_pos hmem, if_neg fun hnew ↦ hnew.2 hmem]
    · rw [if_neg hmem, if_pos ⟨hvalid, hmem⟩]
  · rw [register_of_not_valid r hvalid, if_neg fun hnew ↦ hvalid hnew.1]

theorem mem_names_register {r : Registry σ α} {name n : String} {f : Option (Factory σ α)} :
    n ∈ (r.register name f).2.names ↔ n ∈ r.names ∨ isAlgorithmName n = true ∧ n = name := by
  rw [names_register]
  split
  · rename_i h
    rw [List.mem_append, List.mem_singleton]
    constructor
    · rintro (hn | rfl)
      · exact Or.inl hn
      · exact Or.inr ⟨h.1, rfl⟩
    · rintro (hn | ⟨-, rfl⟩)
      · exact Or.inl hn
      · exact Or.inr rfl
  · rename_i h
    refine ⟨Or.inl, ?_⟩
    rintro (hn | ⟨hvalid, rfl⟩)
    · exact hn
    · by_contra hn
      exact h ⟨hvalid, hn⟩

/-- Moving the default succeeds for registered names, and leaves the names alone. -/
theorem names_of_setDefault {r r' : Registry σ α} {name : String}
    (h : r.setDefault name = .ok r') : r'.names = r.names := by
  unfold setDefault at h
  split at h
  · obtain rfl := Except.ok.inj h
    rfl
  · cases h

/-- **What one extension can do**: nothing, unless its implementation is in the table and can be
constructed as things stand; then its name is registered. -/
theorem install_cases (table : Table σ α) (p : Progress σ (Registry σ α)) (e : Extension) :
    (∃ f, Roster.get? table e.implementation = some f ∧ (f p.state).1.isOk = true ∧
        (install table p e).value = (p.value.register e.name (some f)).2) ∨
      ((∀ f, Roster.get? table e.implementation = some f → (f p.state).1.isOk = false) ∧
        (install table p e).value = p.value) := by
  rcases hf : Roster.get? table e.implementation with - | f
  · exact Or.inr ⟨by simp, by simp [install, hf]⟩
  · rcases hrun : f p.state with ⟨a | e', s⟩
    · refine Or.inr ⟨?_, by simp [install, hf, hrun]⟩
      rintro g hg
      obtain rfl := Option.some.inj hg
      rw [hrun]
      rfl
    · refine Or.inl ⟨f, rfl, ?_, ?_⟩
      · rw [hrun]
        rfl
      · rcases hregister : p.value.register e.name (some f) with ⟨_ | _, r⟩
        · simp [install, hf, hrun, hregister]
        · simp [install, hf, hrun, hregister]

/-- **What registration keeps, discovery keeps**, whatever the factories do. -/
theorem discover_keeps {P : Registry σ α → Prop}
    (hregister : ∀ r name f, P r → P (r.register name f).2) (table : Table σ α)
    (es : List Extension) {p : Progress σ (Registry σ α)} (hp : P p.value) :
    P (discover table es p).value := by
  -- Each factory runs in the state that the one before has left, so the progress is general.
  induction es generalizing p with
  | nil => exact hp
  | cons e es ih =>
    refine ih (p := install table p e) ?_
    obtain ⟨f, -, -, h⟩ | ⟨-, h⟩ := install_cases table p e
    · rw [h]
      exact hregister _ _ _ hp
    · rw [h]
      exact hp

/-! ### Names only grow -/

/-- Another registry has the names of a registry at its front, and after them only names that can
be advertised. -/
structure Extends (r r' : Registry σ α) : Prop where
  /-- No name is removed or moved. -/
  isPrefix : r.names <+: r'.names
  /-- What was added can be advertised. -/
  valid : ∀ n ∈ r'.names, n ∈ r.names ∨ isAlgorithmName n = true

namespace Extends

theorem refl (r : Registry σ α) : Extends r r := ⟨List.prefix_refl _, fun _ ↦ Or.inl⟩

theorem trans {r s t : Registry σ α} (hrs : Extends r s) (hst : Extends s t) : Extends r t := by
  refine ⟨hrs.isPrefix.trans hst.isPrefix, fun n hn ↦ ?_⟩
  rcases hst.valid n hn with hs | hvalid
  · exact hrs.valid n hs
  · exact Or.inr hvalid

end Extends

theorem register_extends (r : Registry σ α) (name : String) (f : Option (Factory σ α)) :
    Extends r (r.register name f).2 := by
  refine ⟨?_, fun n hn ↦ ?_⟩
  · rw [names_register]
    split
    · exact List.prefix_append _ _
    · exact List.prefix_refl _
  · exact (mem_names_register.1 hn).imp_right And.left

/-- **Discovery only adds names**, whatever the factories do. -/
theorem discover_extends (table : Table σ α) (es : List Extension)
    (p : Progress σ (Registry σ α)) : Extends p.value (discover table es p).value :=
  discover_keeps (fun r name f h ↦ h.trans (register_extends r name f)) table es (Extends.refl _)

/-! ### What discovery is about -/

/-- An extension whose implementation is in the table and can be constructed. -/
def Constructs (table : Table σ α) (e : Extension) : Prop :=
  ∃ f, Roster.get? table e.implementation = some f ∧ ∃ s, (f s).1.isOk = true

/-- What discovery makes of a registry, whatever state it starts in. -/
def Discovered (table : Table σ α) (es : List Extension) (base r : Registry σ α) : Prop :=
  ∃ s log, r = (discover table es ⟨base, s, log⟩).value

theorem Discovered.extends {table : Table σ α} {es : List Extension} {base r : Registry σ α}
    (h : Discovered table es base r) : Extends base r := by
  obtain ⟨s, log, rfl⟩ := h
  exact discover_extends table es ⟨base, s, log⟩

end Registry

end SecureShell

import SecureShell.Proofs.Algorithm.Registry

/-!
# Registries: what every change keeps

A registry is changed in three ways: a name is registered, the default is moved, or extensions are
discovered. Whatever the changes, the names stay distinct and can all be advertised, and the default
is one of them as soon as there is one (`Registry.WellFormed`). Discovery does nothing that
registration does not do, so it is enough to look at the first two ways (`Registry.change_keeps`).

That the default is a name rests on names never being removed: the first name that is accepted
becomes the default, and from then on it can only be exchanged for another name. A first name that
is refused leaves the registry without a default, and the next one still is the first.
-/

namespace SecureShell.Registry

variable {σ α : Type}

/-! ### Well-formed registries -/

/-- What holds of a registry, however it came about. -/
structure WellFormed (r : Registry σ α) : Prop where
  /-- No name is registered twice. -/
  nodup : r.names.Nodup
  /-- Every name can be advertised. -/
  valid : ∀ n ∈ r.names, isAlgorithmName n = true
  /-- Without names there is no default. -/
  defaultName_of_nil : r.names = [] → r.defaultName = ""
  /-- With names one of them is the default. -/
  defaultName_mem : r.names ≠ [] → r.defaultName ∈ r.names

theorem wellFormed_empty (category : Category) : (empty category : Registry σ α).WellFormed where
  nodup := List.nodup_nil
  valid := nofun
  defaultName_of_nil _ := rfl
  defaultName_mem h := absurd rfl h

/-- The default after a registration. -/
theorem defaultName_register (r : Registry σ α) (name : String) (f : Option (Factory σ α)) :
    (r.register name f).2.defaultName =
      if isAlgorithmName name = true ∧ r.names = [] then name else r.defaultName := by
  by_cases hvalid : isAlgorithmName name = true
  · simp [register_of_valid r hvalid, hvalid, names, Roster.names]
  · rw [register_of_not_valid r hvalid, if_neg fun h ↦ hvalid h.1]

/-- Registration keeps a registry well-formed. -/
theorem WellFormed.register {r : Registry σ α} (h : r.WellFormed) (name : String)
    (f : Option (Factory σ α)) : (r.register name f).2.WellFormed := by
  have hnames := names_register r name f
  have hdefault := defaultName_register r name f
  by_cases hnew : isAlgorithmName name = true ∧ name ∉ r.names
  · rw [if_pos hnew] at hnames
    refine ⟨?_, ?_, ?_, fun _ ↦ ?_⟩
    · rw [hnames]
      refine List.nodup_append.2 ⟨h.nodup, List.nodup_cons.2 ⟨List.not_mem_nil, List.nodup_nil⟩, ?_⟩
      rintro n hn m hm rfl
      exact hnew.2 (List.mem_singleton.1 hm ▸ hn)
    · intro n hn
      rcases mem_names_register.1 hn with hold | ⟨hvalid, -⟩
      · exact h.valid n hold
      · exact hvalid
    · intro hnil
      rw [hnames] at hnil
      exact absurd hnil (List.append_ne_nil_of_right_ne_nil _ (List.cons_ne_nil _ _))
    · rw [hdefault, hnames, List.mem_append, List.mem_singleton]
      by_cases hnil : r.names = []
      · rw [if_pos ⟨hnew.1, hnil⟩]
        exact Or.inr rfl
      · rw [if_neg fun hfirst ↦ hnil hfirst.2]
        exact Or.inl (h.defaultName_mem hnil)
  -- No name is new, so none is the first one.
  · have hsame : (r.register name f).2.defaultName = r.defaultName := by
      rw [hdefault, if_neg]
      rintro ⟨hvalid, hnil⟩
      exact hnew ⟨hvalid, hnil ▸ List.not_mem_nil⟩
    rw [if_neg hnew] at hnames
    constructor
    · exact hnames ▸ h.nodup
    · exact hnames ▸ h.valid
    · exact hnames ▸ hsame ▸ h.defaultName_of_nil
    · exact hnames ▸ hsame ▸ h.defaultName_mem

/-- The default moves to registered names, and to no others. -/
theorem setDefault_eq (r : Registry σ α) (name : String) :
    r.setDefault name =
      if name ∈ r.names then .ok { r with defaultName := name } else .error (.unknown name) := by
  have hcontains : r.contains name = true ↔ name ∈ r.names := Roster.contains_iff r.entries name
  simp only [setDefault, hcontains]

/-- Moving the default keeps a registry well-formed. -/
theorem WellFormed.setDefault {r r' : Registry σ α} (h : r.WellFormed) {name : String}
    (hset : r.setDefault name = .ok r') : r'.WellFormed := by
  rw [setDefault_eq] at hset
  split at hset
  · rename_i hmem
    obtain rfl := Except.ok.inj hset
    exact ⟨h.nodup, h.valid, fun hnil ↦ absurd hmem (hnil ▸ List.not_mem_nil), fun _ ↦ hmem⟩
  · cases hset

/-- Discovery keeps a registry well-formed. -/
theorem WellFormed.discover {p : Progress σ (Registry σ α)} (h : p.value.WellFormed)
    (table : Table σ α) (es : List Extension) : (discover table es p).value.WellFormed :=
  discover_keeps (fun _ name f hr ↦ hr.register name f) table es h

/-! ### Changes -/

theorem after_append (r : Registry σ α) (changes later : List (Change σ α)) :
    r.after (changes ++ later) = (r.after changes).after later :=
  List.foldl_append

/-- **What registration and moving the default keep, every change keeps.** -/
theorem change_keeps {P : Registry σ α → Prop}
    (hregister : ∀ r name f, P r → P (r.register name f).2)
    (hdefault : ∀ r r' name, r.setDefault name = .ok r' → P r → P r') {r : Registry σ α}
    (hr : P r) (c : Change σ α) : P (r.change c).2 := by
  cases c with
  | register name f => exact hregister r name f hr
  | setDefault name =>
    rcases h : r.setDefault name with e | r'
    · simpa [change, h] using hr
    · simpa [change, h] using hdefault r r' name h hr
  | discover table es s => exact discover_keeps hregister table es hr

theorem WellFormed.change {r : Registry σ α} (h : r.WellFormed) (c : Change σ α) :
    (r.change c).2.WellFormed :=
  change_keeps (fun _ name f hr ↦ hr.register name f) (fun _ _ _ hset hr ↦ hr.setDefault hset) h c

/-- Changes only add names. -/
theorem change_extends (r : Registry σ α) (c : Change σ α) : Extends r (r.change c).2 := by
  refine change_keeps (P := Extends r) (fun s name f h ↦ h.trans (register_extends s name f))
    (fun s s' name hset h ↦ h.trans ?_) (Extends.refl r) c
  have hnames := names_of_setDefault hset
  exact ⟨hnames ▸ List.prefix_refl _, fun n hn ↦ Or.inl (hnames ▸ hn)⟩

/-- **What every change keeps, all changes keep.** -/
theorem after_keeps {P : Registry σ α → Prop} (hchange : ∀ r c, P r → P (r.change c).2)
    {r : Registry σ α} (hr : P r) (changes : List (Change σ α)) : P (r.after changes) := by
  induction changes generalizing r with
  | nil => exact hr
  | cons c changes ih => exact ih (hchange r c hr)

theorem WellFormed.after {r : Registry σ α} (h : r.WellFormed) (changes : List (Change σ α)) :
    (r.after changes).WellFormed :=
  after_keeps (fun _ c hr ↦ hr.change c) h changes

theorem after_extends (r : Registry σ α) (changes : List (Change σ α)) :
    Extends r (r.after changes) :=
  after_keeps (fun s c h ↦ h.trans (s.change_extends c)) (Extends.refl r) changes

/-! ### Questions and answers -/

/-- How a registry answers questions about its names. -/
structure Tells (r : Registry σ α) : Prop where
  /-- It contains its names. -/
  contains : ∀ n, r.contains n = true ↔ n ∈ r.names
  /-- It has as many entries as names. -/
  size : r.size = r.names.length
  /-- Its entries have the names, in their order. -/
  entries : r.entries.map Prod.fst = r.names
  /-- There is no more than one entry of a name. -/
  entry_unique : ∀ n f g, (n, f) ∈ r.entries → (n, g) ∈ r.entries → f = g
  /-- No algorithm is constructed for another name. -/
  instantiate_of_not_mem : ∀ n s, n ∉ r.names →
    r.instantiate n s = (.quiet (.error (.notSupported n)), s)
  /-- Nothing is constructed for an entry without a factory. -/
  instantiate_of_none : ∀ n s, (n, none) ∈ r.entries →
    r.instantiate n s = (.quiet (.ok none), s)
  /-- For an entry with a factory the algorithm is constructed by that factory, or there is none
  if the factory fails. -/
  instantiate_of_some : ∀ n f s, (n, some f) ∈ r.entries →
    r.instantiate n s = match f s with
      | (.ok a, t) => (.quiet (.ok (some a)), t)
      | (.error e, t) => (⟨.error (.notSupported n), [.failed r.category n e]⟩, t)

/-- How a registry deals with what it is asked for. What it refuses changes nothing. -/
structure Obeys (r : Registry σ α) : Prop where
  /-- A name that can be advertised gets the factory. It comes after all others unless it is
  registered already, and no other entry is touched. -/
  register_of_valid : ∀ name f, isAlgorithmName name = true →
    (r.change (.register name f)).1 = .registered true ∧
    (r.change (.register name f)).2.names =
      (if name ∈ r.names then r.names else r.names ++ [name]) ∧
    ∀ n g, (n, g) ∈ (r.change (.register name f)).2.entries ↔
      if name = n then f = g else (n, g) ∈ r.entries
  /-- Any other name is refused. -/
  register_of_not_valid : ∀ name f, ¬isAlgorithmName name = true →
    r.change (.register name f) = (.registered false, r)
  /-- The default moves to a registered name. -/
  setDefault_of_mem : ∀ name, name ∈ r.names →
    r.change (.setDefault name) = (.moved none, { r with defaultName := name })
  /-- It does not move to any other name. -/
  setDefault_of_not_mem : ∀ name, name ∉ r.names →
    r.change (.setDefault name) = (.moved (some (.unknown name)), r)

theorem WellFormed.tells {r : Registry σ α} (h : r.WellFormed) : r.Tells where
  contains := Roster.contains_iff r.entries
  size := (List.length_map _).symm
  entries := rfl
  entry_unique n f g hf hg := by
    rw [← Roster.get?_eq_some_iff h.nodup] at hf hg
    exact Option.some.inj (hf.symm.trans hg)
  instantiate_of_not_mem n s hn := by
    rw [instantiate, Roster.get?_eq_none_iff.2 hn]
  instantiate_of_none n s hn := by
    rw [instantiate, (Roster.get?_eq_some_iff h.nodup).2 hn]
  instantiate_of_some n f s hn := by
    have hfound := (Roster.get?_eq_some_iff h.nodup).2 hn
    rcases hrun : f s with ⟨e | a, t⟩
    · simp only [instantiate, hfound, hrun]
    · simp only [instantiate, hfound, hrun]

/-- The entries after a registration. -/
theorem WellFormed.mem_entries_register {r : Registry σ α} (h : r.WellFormed) {name : String}
    (hvalid : isAlgorithmName name = true) (f : Option (Factory σ α)) (n : String)
    (g : Option (Factory σ α)) :
    (n, g) ∈ (r.register name f).2.entries ↔
      if name = n then f = g else (n, g) ∈ r.entries := by
  have hput : (r.register name f).2.entries = Roster.put name f r.entries := by
    rw [register_of_valid r hvalid]
  have hnodup : (Roster.names (r.register name f).2.entries).Nodup := (h.register name f).nodup
  rw [← Roster.get?_eq_some_iff hnodup, hput, Roster.get?_put]
  split
  · exact Option.some_inj
  · exact Roster.get?_eq_some_iff h.nodup

theorem WellFormed.obeys {r : Registry σ α} (h : r.WellFormed) : r.Obeys where
  register_of_valid name f hvalid := by
    refine ⟨?_, ?_, h.mem_entries_register hvalid f⟩
    · rw [Registry.change, register_of_valid r hvalid]
    show (r.register name f).2.names = _
    rw [names_register]
    by_cases hmem : name ∈ r.names
    · rw [if_pos hmem, if_neg fun hnew ↦ hnew.2 hmem]
    · rw [if_neg hmem, if_pos ⟨hvalid, hmem⟩]
  register_of_not_valid name f hvalid := by
    rw [Registry.change, register_of_not_valid r hvalid]
  setDefault_of_mem name hmem := by
    rw [Registry.change, setDefault_eq, if_pos hmem]
  setDefault_of_not_mem name hmem := by
    rw [Registry.change, setDefault_eq, if_neg hmem]

/-- **What all changes keep.** A registry that came about by changes of one without entries has
distinct names that can all be advertised, and its default is one of them, or the empty text if
there are none; the names that there were at any time before stand at its front, in their order;
what it tells of a name, and what it constructs for it, is settled by its names and their entries;
and it accepts the names that can be advertised and moves the default to registered names, and what
it refuses leaves it as it is. -/
theorem changes_keepNames (category : Category) (changes : List (Change σ α)) :
    let r : Registry σ α := (empty category).after changes
    r.WellFormed ∧
      (∀ earlier later, changes = earlier ++ later →
        ((empty category : Registry σ α).after earlier).names <+: r.names) ∧
      r.Tells ∧ r.Obeys := by
  intro r
  have hr : r.WellFormed := (wellFormed_empty category).after changes
  refine ⟨hr, ?_, hr.tells, hr.obeys⟩
  rintro earlier later rfl
  show _ <+: ((empty category).after (earlier ++ later)).names
  rw [after_append]
  exact (after_extends _ later).isPrefix

end SecureShell.Registry

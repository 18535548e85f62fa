import SecureShell.Proofs.Algorithm.Configured
import SecureShell.Proofs.Algorithm.Reachable

/-!
# Supply: what is registered can be constructed

A factory comes into a registry after a run in which it has succeeded. If it is constant, it will
always succeed, so a registry that is configured has no entry that fails (`Registry.Works`), whether
the entry is new or has taken the place of a built-in one. What cannot be constructed never touches
an entry: a built-in algorithm whose name only such extensions reuse stays as it is
(`Suite.listed?_of_configure`).

With its names and its default in order (`Registry.WellFormed`) such a registry supplies all that it
advertises (`Registry.Supplies`).
-/

namespace SecureShell

/-! ### Factories that succeed -/

namespace Factory

variable {σ α : Type}

/-- A factory that succeeds in every state. -/
def Succeeds (f : Factory σ α) : Prop := ∀ s, ∃ a, (f s).1 = .ok a

theorem succeeds_ofValue (a : α) : (ofValue a : Factory σ α).Succeeds := fun _ ↦ ⟨a, rfl⟩

/-- A constant factory that has succeeded once always does. -/
theorem Constant.succeeds {naming : α → String} {f : Factory σ α} (h : f.Constant naming) {s : σ}
    {a : α} (ha : (f s).1 = .ok a) : f.Succeeds := by
  intro t
  have hsame := h s t
  rcases ht : (f t).1 with e | b
  · rw [ha, ht] at hsame
    cases hsame
  · exact ⟨b, rfl⟩

end Factory

theorem succeeds_curve25519Factory {σ : Type} [Entropy σ] :
    (curve25519Factory : Factory σ KeyExchange).Succeeds := fun _ ↦ ⟨_, rfl⟩

/-! ### Registries that work -/

namespace Registry

variable {σ α : Type}

/-- Factories under names that all succeed. -/
def Sound (l : Roster (Option (Factory σ α))) : Prop :=
  ∀ p ∈ l, ∀ f, p.2 = some f → f.Succeeds

theorem sound_nil : Sound ([] : Roster (Option (Factory σ α))) := nofun

theorem Sound.cons {f : Factory σ α} {l : Roster (Option (Factory σ α))} (hf : f.Succeeds)
    (hl : Sound l) (name : String) : Sound ((name, some f) :: l) :=
  List.forall_mem_cons.2 ⟨fun _ hg ↦ Option.some.inj hg ▸ hf, hl⟩

/-- Every factory of a registry succeeds. -/
def Works (r : Registry σ α) : Prop := ∀ n f, r.listed? n = some (some f) → f.Succeeds

theorem works_empty (category : Category) : (empty category : Registry σ α).Works := nofun

theorem Works.registerAll {r : Registry σ α} (h : r.Works) {l : Roster (Option (Factory σ α))}
    (hl : Sound l) : (r.registerAll l).Works := by
  intro n f hentry
  obtain hold | ⟨g, hg, hnew⟩ := listed?_registerAll_cases r l n
  · exact h n f (hold ▸ hentry)
  · rw [hnew] at hentry
    exact hl (n, g) hg f (Option.some.inj hentry)

/-- A registry that is made of a list works if the factories of the list do. -/
theorem works_ofList (category : Category) {l : Roster (Option (Factory σ α))} (hl : Sound l) :
    (ofList category l).Works :=
  (works_empty category).registerAll hl

/-- **Only what succeeds is a candidate.** -/
theorem sound_filterMap_candidate? {table : Table σ α} {naming : α → String} {ι : Type}
    {implementation : ι → String} {name : ι → α → String} {l : List ι} {s : σ}
    (hconstant : ∀ id f, Roster.get? table id = some f → f.Constant naming) :
    Sound (l.filterMap fun i ↦ candidate? table (name i) s (implementation i)) := by
  intro p hp f hf
  obtain ⟨i, -, hi⟩ := List.mem_filterMap.1 hp
  obtain ⟨g, a, hg, ha, rfl⟩ := candidate?_eq_some_iff.1 hi
  obtain rfl := Option.some.inj hf
  exact (hconstant _ g hg).succeeds ha

theorem sound_candidates {table : Table σ α}
    (hsteady : ∀ id f, Roster.get? table id = some f → Factory.Steady f) (es : List Extension)
    (s : σ) : Sound (candidates table es s) :=
  sound_filterMap_candidate? fun id f hf ↦ (hsteady id f hf).constant ""

/-- What a registry that advertises its names owes: each name can be instantiated at any time, with
nothing for the entries without a factory and for no others, and so can the default. -/
structure Supplies (r : Registry σ α) : Prop where
  /-- Every name can be instantiated. -/
  instantiate : ∀ n ∈ r.names, ∀ s, ∃ a, (r.instantiate n s).1 = .quiet (.ok a) ∧
    (a = none ↔ (n, none) ∈ r.entries)
  /-- The default is one of the names. -/
  default_mem : r.defaultName ∈ r.names
  /-- The default can be instantiated: what comes of it is what comes of its name, so it is nothing
  if the default's entry has no factory and only then. -/
  instantiateDefault : ∀ s, r.instantiateDefault s = r.instantiate r.defaultName s ∧
    ∃ a, (r.instantiateDefault s).1 = .quiet (.ok a) ∧
      (a = none ↔ (r.defaultName, none) ∈ r.entries)

/-- **A well-formed registry that works supplies what it advertises.** -/
theorem WellFormed.supplies {r : Registry σ α} (h : r.WellFormed) (hworks : r.Works)
    (hne : r.names ≠ []) : r.Supplies := by
  have hinstantiate : ∀ n ∈ r.names, ∀ s, ∃ a, (r.instantiate n s).1 = .quiet (.ok a) ∧
      (a = none ↔ (n, none) ∈ r.entries) := by
    intro n hn s
    obtain ⟨⟨_, entry⟩, hentry, rfl⟩ := List.mem_map.1 hn
    rcases entry with - | f
    · refine ⟨none, ?_, iff_of_true rfl hentry⟩
      rw [h.tells.instantiate_of_none _ s hentry]
    · obtain ⟨a, ha⟩ := hworks _ f ((Roster.get?_eq_some_iff h.nodup).2 hentry) s
      refine ⟨some a, ?_, iff_of_false (Option.some_ne_none a) fun hnone ↦ ?_⟩
      · rw [h.tells.instantiate_of_some _ f s hentry]
        rcases hrun : f s with ⟨_, t⟩
        rw [hrun] at ha
        obtain rfl := ha
        rfl
      · cases h.tells.entry_unique _ _ _ hentry hnone
  have hdefault : r.defaultName ∈ r.names := h.defaultName_mem hne
  exact ⟨hinstantiate, hdefault, fun s ↦ ⟨rfl, hinstantiate r.defaultName hdefault s⟩⟩

end Registry

/-! ### Configured suites -/

namespace Suite

variable {σ : Type}

/-- All six registries of a suite supply what they advertise. -/
structure Supplies (x : Suite σ) : Prop where
  /-- The algorithms. -/
  registry : ∀ category, (x.registry category).Supplies
  /-- The public key formats. -/
  keyFormat : x.keyFormat.Supplies

variable [Entropy σ] {config : Configuration} {catalog : Catalog σ} {s : σ} {x : Suite σ}

/-- The built-in algorithms can all be constructed. -/
theorem works_builtin (category : Category) : ((builtin : Suite σ).registry category).Works := by
  cases category with
  | kex =>
    exact Registry.works_ofList _
      ((Registry.sound_nil.cons succeeds_curve25519Factory _).cons succeeds_curve25519Factory _)
  | publicKey =>
    exact Registry.works_ofList _ (Registry.sound_nil.cons (Factory.succeeds_ofValue _) _)
  | cipher =>
    exact Registry.works_ofList _ (Registry.sound_nil.cons (Factory.succeeds_ofValue _) _)
  | mac =>
    exact Registry.works_ofList _
      ((Registry.sound_nil.cons (Factory.succeeds_ofValue _) _).cons (Factory.succeeds_ofValue _) _)
  | compression => exact Registry.works_ofList _ (by simp [Registry.Sound])

theorem works_builtin_keyFormat : (builtin : Suite σ).keyFormat.Works :=
  Registry.works_ofList _ (Registry.sound_nil.cons (Factory.succeeds_ofValue _) _)

/-- **What is listed under a name**: a candidate of that name, or else what is built in. -/
theorem listed?_of_configure (hcatalog : catalog.Steady)
    (h : (configure config catalog s).1.result = .ok x) {category : Category} {n : String}
    (hnone : ∀ e ∈ (config.category category).extensions, e.name = n →
      ¬Registry.Constructs (catalog.table category) e) :
    (x.registry category).listed? n = ((builtin : Suite σ).registry category).listed? n := by
  rw [registry_of_configure hcatalog h category]
  obtain hold | ⟨f, hf, -⟩ := Registry.listed?_registerAll_cases _ _ n
  · exact hold
  · obtain ⟨e, he, rfl, hconstructs⟩ :=
      (Registry.exists_mem_candidates_iff (hcatalog.table category)).1 ⟨f, hf⟩
    exact absurd hconstructs (hnone e he rfl)

/-- So it is with formats. -/
theorem keyFormat_listed?_of_configure (hcatalog : catalog.Constant)
    (h : (configure config catalog s).1.result = .ok x) {n : String}
    (hnone : ∀ id ∈ config.keyFormats, ¬Presents catalog.keyFormat id n) :
    x.keyFormat.listed? n = (builtin : Suite σ).keyFormat.listed? n := by
  rw [keyFormat_of_configure hcatalog h]
  obtain hold | ⟨f, hf, -⟩ := Registry.listed?_registerAll_cases _ _ n
  · exact hold
  · obtain ⟨id, hid, hpresents⟩ :=
      (exists_mem_formatCandidates_iff hcatalog.keyFormat).1 ⟨f, hf⟩
    exact absurd hpresents (hnone id hid)

/-- The built-in format stays registered. -/
theorem openssh_mem_names_keyFormat (hcatalog : catalog.Constant)
    (h : (configure config catalog s).1.result = .ok x) : "openssh" ∈ x.keyFormat.names := by
  rw [keyFormat_of_configure hcatalog h]
  exact Registry.mem_names_registerAll.2 (Or.inl List.mem_cons_self)

/-- The format registry of a configured suite is well-formed. -/
theorem wellFormed_keyFormat (hcatalog : catalog.Constant)
    (h : (configure config catalog s).1.result = .ok x) : x.keyFormat.WellFormed := by
  have hmoved := (moves_of_configure h).keyFormat
  rw [keyFormat_discover config hcatalog s s] at hmoved
  exact ((Registry.wellFormed_ofList _ _).registerAll _).moveDefault hmoved

/-- **A configured suite supplies what it advertises**, if the factories of its catalog are
constant. -/
theorem supplies_of_configure (hcatalog : catalog.Constant)
    (h : (configure config catalog s).1.result = .ok x) : x.Supplies := by
  constructor
  · intro category
    refine ((wellFormed_of_configure h).registry category).supplies ?_ ?_
    · rw [registry_of_configure hcatalog.toSteady h category]
      exact (works_builtin category).registerAll
        (Registry.sound_candidates (hcatalog.toSteady.table category) _ s)
    · obtain ⟨added, hadded⟩ := builtin_prefix_of_configure h category
      rw [names_registry, ← hadded]
      cases category <;> exact List.cons_ne_nil _ _
  · refine (wellFormed_keyFormat hcatalog h).supplies ?_ ?_
    · rw [keyFormat_of_configure hcatalog h]
      exact works_builtin_keyFormat.registerAll
        (Registry.sound_filterMap_candidate? hcatalog.keyFormat)
    · exact List.ne_nil_of_mem (openssh_mem_names_keyFormat hcatalog h)

end Suite

end SecureShell

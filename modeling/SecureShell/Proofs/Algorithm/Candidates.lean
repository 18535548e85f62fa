import SecureShell.Proofs.Algorithm.Change

/-!
# Candidates: what discovery registers

Discovery goes through extensions one after the other, and each factory runs in the state that the
one before has left. As long as no factory changes its mind the states play no part: what is there
to be registered can be told from the table, in any state (`Registry.candidate?_congr`), and
discovery is the registration of all that, in order (`Registry.value_discover`). Which names it
registers is then a question of the single extension (`Registry.mem_names_discover`).

An extension is registered under its own name, whatever is constructed. Where what is constructed
names itself, a factory has to construct the same name at any time (`Factory.Constant`); elsewhere
it is enough that it succeeds at any time or never.
-/

namespace SecureShell

/-- A factory with the same outcome in every state, as far as success and a name of the constructed
value are concerned. -/
def Factory.Constant {σ α : Type} (naming : α → String) (f : Factory σ α) : Prop :=
  ∀ s t, (f s).1.toOption.map naming = (f t).1.toOption.map naming

theorem Factory.Steady.constant {σ α : Type} {f : Factory σ α} (h : f.Steady) (name : String) :
    f.Constant fun _ ↦ name := by
  intro s t
  have hok := h s t
  rcases hs : (f s).1 with e | a <;> rcases ht : (f t).1 with e' | a'
  · rfl
  · rw [hs, ht] at hok
    cases hok
  · rw [hs, ht] at hok
    cases hok
  · rfl

/-! ### Registering several factories -/

namespace Registry

variable {σ α : Type} {table : Table σ α} {naming : α → String}

/-- Registers names with their factories, one after the other. -/
def registerAll (r : Registry σ α) (l : Roster (Option (Factory σ α))) : Registry σ α :=
  l.foldl (fun r p ↦ (r.register p.1 p.2).2) r

/-- What is listed under a name. -/
def listed? (r : Registry σ α) (name : String) : Option (Option (Factory σ α)) :=
  Roster.get? r.entries name

theorem registerAll_singleton (r : Registry σ α) (name : String) (f : Option (Factory σ α)) :
    r.registerAll [(name, f)] = (r.register name f).2 := rfl

theorem registerAll_append (r : Registry σ α) (l m : Roster (Option (Factory σ α))) :
    r.registerAll (l ++ m) = (r.registerAll l).registerAll m :=
  List.foldl_append

/-- **What registration keeps, several registrations keep.** -/
theorem registerAll_keeps {P : Registry σ α → Prop} {l : Roster (Option (Factory σ α))}
    (hregister : ∀ r, ∀ p ∈ l, P r → P (r.register p.1 p.2).2) {r : Registry σ α} (hr : P r) :
    P (r.registerAll l) := by
  induction l generalizing r with
  | nil => exact hr
  | cons p l ih =>
    exact ih (fun r' p' hp' ↦ hregister r' p' (List.mem_cons_of_mem _ hp'))
      (hregister r p List.mem_cons_self hr)

theorem WellFormed.registerAll {r : Registry σ α} (h : r.WellFormed)
    (l : Roster (Option (Factory σ α))) : (r.registerAll l).WellFormed :=
  registerAll_keeps (P := WellFormed) (fun _ p _ hr ↦ hr.register p.1 p.2) h

/-- Names that can be advertised are registered. -/
theorem mem_names_registerAll {r : Registry σ α} {l : Roster (Option (Factory σ α))} {n : String} :
    n ∈ (r.registerAll l).names ↔
      n ∈ r.names ∨ isAlgorithmName n = true ∧ ∃ f, (n, f) ∈ l := by
  induction l generalizing r with
  | nil => simp [registerAll]
  | cons p l ih =>
    obtain ⟨name, f⟩ := p
    have hstep : r.registerAll ((name, f) :: l) = (r.register name f).2.registerAll l := rfl
    rw [hstep, ih, mem_names_register]
    simp only [List.mem_cons, Prod.mk.injEq, exists_or, exists_and_left, exists_eq, and_true]
    tauto

/-- The default of a registry that has one stays. -/
theorem defaultName_registerAll {r : Registry σ α} (h : r.names ≠ [])
    (l : Roster (Option (Factory σ α))) : (r.registerAll l).defaultName = r.defaultName := by
  refine (registerAll_keeps (P := fun s ↦ s.names ≠ [] ∧ s.defaultName = r.defaultName)
    (fun s p _ hs ↦ ⟨?_, ?_⟩) ⟨h, rfl⟩).2
  · obtain ⟨added, hadded⟩ := (register_extends s p.1 p.2).isPrefix
    rw [← hadded]
    exact List.append_ne_nil_of_left_ne_nil hs.1 added
  · rw [defaultName_register, if_neg fun hfirst ↦ hs.1 hfirst.2]
    exact hs.2

theorem listed?_register (r : Registry σ α) (name : String) (f : Option (Factory σ α))
    (n : String) :
    (r.register name f).2.listed? n =
      if isAlgorithmName name = true ∧ name = n then some f else r.listed? n := by
  by_cases hvalid : isAlgorithmName name = true
  · simp only [register_of_valid r hvalid, listed?, Roster.get?_put, hvalid, true_and]
  · rw [register_of_not_valid r hvalid, if_neg fun h ↦ hvalid h.1]

/-- **What is listed under a name after several registrations**: what one of them put there, or what
was listed there before. -/
theorem listed?_registerAll_cases (r : Registry σ α) (l : Roster (Option (Factory σ α)))
    (n : String) :
    (r.registerAll l).listed? n = r.listed? n ∨
      ∃ f, (n, f) ∈ l ∧ (r.registerAll l).listed? n = some f := by
  -- From the end of the list, since the latest registration is the one that counts.
  induction l using List.reverseRecOn with
  | nil => exact Or.inl rfl
  | append_singleton l p ih =>
    obtain ⟨name, f⟩ := p
    have hlast : r.registerAll (l ++ [(name, f)]) = ((r.registerAll l).register name f).2 :=
      registerAll_append r l [(name, f)]
    rw [hlast, listed?_register]
    split
    · rename_i hnew
      obtain ⟨-, rfl⟩ := hnew
      exact Or.inr ⟨f, by simp, rfl⟩
    · refine ih.imp_right ?_
      rintro ⟨g, hg, hentry⟩
      exact ⟨g, List.mem_append_left _ hg, hentry⟩

/-! ### Candidates -/

/-- What there is to be registered for an implementation: its factory, under a name of what the
factory constructs in a state. There is nothing if the table does not have the implementation or if
it cannot be constructed. -/
def candidate? (table : Table σ α) (naming : α → String) (s : σ) (implementation : String) :
    Option (String × Option (Factory σ α)) :=
  (Roster.get? table implementation).bind fun f ↦
    (f s).1.toOption.map fun a ↦ (naming a, some f)

theorem candidate?_eq_some_iff {s : σ} {implementation : String}
    {c : String × Option (Factory σ α)} :
    candidate? table naming s implementation = some c ↔
      ∃ f a, Roster.get? table implementation = some f ∧ (f s).1 = .ok a ∧
        c = (naming a, some f) := by
  rw [candidate?]
  rcases Roster.get? table implementation with - | f
  · simp
  · rcases hf : (f s).1 with e | a
    · simp [hf, Except.toOption]
    · simp [hf, Except.toOption, eq_comm]

/-- **With constant factories the state plays no part.** -/
theorem candidate?_congr {implementation : String}
    (h : ∀ f, Roster.get? table implementation = some f → f.Constant naming) (s t : σ) :
    candidate? table naming s implementation = candidate? table naming t implementation := by
  rw [candidate?, candidate?]
  rcases hf : Roster.get? table implementation with - | f
  · rfl
  · have hname : ∀ s, ((f s).1.toOption.map fun a ↦ (naming a, some f)) =
        ((f s).1.toOption.map naming).map fun n ↦ (n, some f) := by
      intro s
      rw [Option.map_map]
      rfl
    rw [Option.bind_some, Option.bind_some, hname, hname, h f hf s t]

/-- What the extensions of a category bring. -/
def candidates (table : Table σ α) (es : List Extension) (s : σ) :
    Roster (Option (Factory σ α)) :=
  es.filterMap fun e ↦ candidate? table (fun _ ↦ e.name) s e.implementation

theorem exists_mem_candidates_iff
    (hsteady : ∀ id f, Roster.get? table id = some f → Factory.Steady f) {es : List Extension}
    {s : σ} {n : String} :
    (∃ f, (n, f) ∈ candidates table es s) ↔ ∃ e ∈ es, n = e.name ∧ Constructs table e := by
  simp only [candidates, List.mem_filterMap, candidate?_eq_some_iff]
  constructor
  · rintro ⟨g, e, he, f, a, hf, ha, hc⟩
    obtain ⟨rfl, -⟩ := Prod.mk.inj hc
    exact ⟨e, he, rfl, f, hf, s, by rw [ha]; rfl⟩
  · rintro ⟨e, he, rfl, f, hf, t, hok⟩
    rw [hsteady _ f hf t s] at hok
    rcases ha : (f s).1 with err | a
    · rw [ha] at hok
      cases hok
    · exact ⟨some f, e, he, f, a, hf, ha, rfl⟩

/-- A candidate is registered if there is one. -/
theorem value_install (table : Table σ α) (p : Progress σ (Registry σ α)) (e : Extension) :
    (install table p e).value =
      p.value.registerAll (candidate? table (fun _ ↦ e.name) p.state e.implementation).toList := by
  rw [install, candidate?]
  rcases Roster.get? table e.implementation with - | f
  · rfl
  · rcases hrun : f p.state with ⟨err | a, s⟩
    · simp only [Option.bind_some, hrun]
      rfl
    · simp only [Option.bind_some, hrun, Except.toOption, Option.map_some, Option.toList_some,
        registerAll_singleton]
      rcases p.value.register e.name (some f) with ⟨_ | _, r⟩
      · rfl
      · rfl

/-- Steps each of which registers its candidate, if there is one, register all candidates. -/
theorem value_foldl {ι : Type} {step : Progress σ (Registry σ α) → ι → Progress σ (Registry σ α)}
    (candidate : σ → ι → Option (String × Option (Factory σ α)))
    (hstep : ∀ p i, (step p i).value = p.value.registerAll (candidate p.state i).toList)
    (hconstant : ∀ i s t, candidate s i = candidate t i) (l : List ι)
    (p : Progress σ (Registry σ α)) (s : σ) :
    (l.foldl step p).value = p.value.registerAll (l.filterMap (candidate s)) := by
  induction l generalizing p with
  | nil => rfl
  | cons i l ih =>
    rw [List.foldl_cons, ih, hstep, ← registerAll_append, hconstant i p.state s,
      List.filterMap_cons]
    rcases candidate s i with - | c
    · rfl
    · rfl

/-- **With constant factories discovery is the registration of all candidates.** -/
theorem value_discover (hsteady : ∀ id f, Roster.get? table id = some f → Factory.Steady f)
    (es : List Extension) (p : Progress σ (Registry σ α)) (s : σ) :
    (discover table es p).value = p.value.registerAll (candidates table es s) := by
  refine value_foldl (fun s e ↦ candidate? table (fun _ ↦ e.name) s e.implementation)
    (value_install table) (fun e s t ↦ ?_) es p s
  exact candidate?_congr (fun f hf ↦ (hsteady _ f hf).constant e.name) s t

/-- **With steady factories an extension is registered on its own account**: if its name can be
advertised and its implementation can be constructed. -/
theorem mem_names_discover
    (hsteady : ∀ id f, Roster.get? table id = some f → Factory.Steady f) {es : List Extension}
    {p : Progress σ (Registry σ α)} {n : String} :
    n ∈ (discover table es p).value.names ↔
      n ∈ p.value.names ∨ isAlgorithmName n = true ∧ ∃ e ∈ es, n = e.name ∧ Constructs table e := by
  rw [value_discover hsteady es p p.state, mem_names_registerAll, exists_mem_candidates_iff hsteady]

/-- **So the order of the extensions plays no part.** -/
theorem Discovered.mem_names_iff_of_perm {table : Table σ α}
    (hsteady : ∀ id f, Roster.get? table id = some f → Factory.Steady f)
    {es es' : List Extension} (hperm : es'.Perm es) {base r r' : Registry σ α}
    (h : Discovered table es base r) (h' : Discovered table es' base r') (n : String) :
    n ∈ r'.names ↔ n ∈ r.names := by
  obtain ⟨s, log, rfl⟩ := h
  obtain ⟨s', log', rfl⟩ := h'
  rw [mem_names_discover hsteady, mem_names_discover hsteady]
  simp only [hperm.mem_iff]

end Registry

end SecureShell

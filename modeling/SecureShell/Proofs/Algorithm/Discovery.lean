import SecureShell.Proofs.Algorithm.Suite

/-!
# Discovery: the same suite from every state

What is discovered for a suite are the candidates of its configuration, category by category
(`Suite.registry_discover`), and then those of its formats, which are registered under the names
that they give themselves (`Suite.keyFormat_discover`). With constant factories these are the same
in any state, so a configuration has one result, at whatever time it is asked for
(`Suite.result_configure_congr`).
-/

namespace SecureShell

/-- A catalog of factories each of which always has the same outcome. -/
structure Catalog.Constant {σ : Type} (c : Catalog σ) : Prop extends Catalog.Steady c where
  /-- Public key formats give themselves the same name at any time. -/
  keyFormat : ∀ id f, Roster.get? c.keyFormat id = some f → f.Constant KeyFormat.name

/-- The built-in factories always succeed. -/
theorem Catalog.constant_builtin {σ : Type} [Entropy σ] : (builtin : Catalog σ).Constant where
  kex id f hf := by
    obtain ⟨-, rfl⟩ := Prod.mk.inj (List.mem_singleton.1 (Roster.mem_of_get? hf))
    have hok : ∀ s : σ, (curve25519Factory s).1.isOk = true := fun _ ↦ rfl
    exact fun s t ↦ (hok s).trans (hok t).symm
  publicKey id f hf := by
    obtain ⟨-, rfl⟩ := Prod.mk.inj (List.mem_singleton.1 (Roster.mem_of_get? hf))
    exact fun _ _ ↦ rfl
  cipher id f hf := by
    obtain ⟨-, rfl⟩ := Prod.mk.inj (List.mem_singleton.1 (Roster.mem_of_get? hf))
    exact fun _ _ ↦ rfl
  mac id f hf := by
    obtain hsha256 | hrest := List.mem_cons.1 (Roster.mem_of_get? hf)
    · obtain ⟨-, rfl⟩ := Prod.mk.inj hsha256
      exact fun _ _ ↦ rfl
    · obtain ⟨-, rfl⟩ := Prod.mk.inj (List.mem_singleton.1 hrest)
      exact fun _ _ ↦ rfl
  compression := nofun
  keyFormat id f hf := by
    obtain ⟨-, rfl⟩ := Prod.mk.inj (List.mem_singleton.1 (Roster.mem_of_get? hf))
    exact fun _ _ ↦ rfl

/-! ### Formats -/

namespace Suite

variable {σ : Type}

/-- What the formats of a configuration bring. -/
def formatCandidates (table : Table σ KeyFormat) (implementations : List String) (s : σ) :
    Roster (Option (Factory σ KeyFormat)) :=
  implementations.filterMap (Registry.candidate? table KeyFormat.name s)

/-- A format whose implementation is in the table and can be constructed, and that then gives itself
a name. -/
def Presents (table : Table σ KeyFormat) (implementation name : String) : Prop :=
  ∃ f, Roster.get? table implementation = some f ∧
    ∃ s format, (f s).1 = .ok format ∧ format.name = name

theorem exists_mem_formatCandidates_iff {table : Table σ KeyFormat}
    (hconstant : ∀ id f, Roster.get? table id = some f → f.Constant KeyFormat.name)
    {implementations : List String} {s : σ} {n : String} :
    (∃ f, (n, f) ∈ formatCandidates table implementations s) ↔
      ∃ id ∈ implementations, Presents table id n := by
  simp only [formatCandidates, List.mem_filterMap]
  constructor
  · rintro ⟨g, id, hid, hc⟩
    obtain ⟨f, format, hf, hformat, hc⟩ := Registry.candidate?_eq_some_iff.1 hc
    obtain ⟨rfl, -⟩ := Prod.mk.inj hc
    exact ⟨id, hid, f, hf, s, format, hformat, rfl⟩
  · rintro ⟨id, hid, f, hf, t, format, hformat, rfl⟩
    refine ⟨some f, id, hid, ?_⟩
    rw [Registry.candidate?_congr (fun g hg ↦ hconstant id g hg) s t]
    exact Registry.candidate?_eq_some_iff.2 ⟨f, format, hf, hformat, rfl⟩

theorem value_installFormat (table : Table σ KeyFormat) (p : Progress σ (Registry σ KeyFormat))
    (implementation : String) :
    (installFormat table p implementation).value = p.value.registerAll
      (Registry.candidate? table KeyFormat.name p.state implementation).toList := by
  rw [installFormat, Registry.candidate?]
  rcases Roster.get? table implementation with - | f
  · rfl
  · rcases hrun : f p.state with ⟨err | format, s⟩
    · simp only [Option.bind_some, hrun]
      rfl
    · simp only [Option.bind_some, hrun, Except.toOption, Option.map_some, Option.toList_some,
        Registry.registerAll_singleton]
      rcases p.value.register format.name (some f) with ⟨_ | _, r⟩
      · rfl
      · rfl

/-- **So it is with formats.** -/
theorem value_discoverFormats {table : Table σ KeyFormat}
    (hconstant : ∀ id f, Roster.get? table id = some f → f.Constant KeyFormat.name)
    (implementations : List String) (p : Progress σ (Registry σ KeyFormat)) (s : σ) :
    (discoverFormats table implementations p).value =
      p.value.registerAll (formatCandidates table implementations s) :=
  Registry.value_foldl (Registry.candidate? table KeyFormat.name) (value_installFormat table)
    (fun id s t ↦ Registry.candidate?_congr (hconstant id) s t) implementations p s

/-! ### Suites -/

variable [Entropy σ] (config : Configuration) {catalog : Catalog σ}

/-- **What is discovered in a category**: the built-in algorithms and the candidates, in any
state. -/
theorem registry_discover (hcatalog : catalog.Steady) (category : Category) (s t : σ) :
    (discover config catalog s).value.registry category =
      ((builtin : Suite σ).registry category).registerAll
        (Registry.candidates (catalog.table category) (config.category category).extensions t) := by
  obtain ⟨u, log, h⟩ := discovered config catalog s category
  rw [h, Registry.value_discover (hcatalog.table category)]

/-- What is discovered of formats. -/
theorem keyFormat_discover (hcatalog : catalog.Constant) (s t : σ) :
    (discover config catalog s).value.keyFormat =
      (builtin : Suite σ).keyFormat.registerAll
        (formatCandidates catalog.keyFormat config.keyFormats t) :=
  value_discoverFormats hcatalog.keyFormat config.keyFormats _ t

/-- **Discovery leads to the same suite from every state.** -/
theorem value_discover_congr (hcatalog : catalog.Constant) (s t : σ) :
    (discover config catalog s).value = (discover config catalog t).value := by
  have hregistry : ∀ category, (discover config catalog s).value.registry category =
      (discover config catalog t).value.registry category := by
    intro category
    rw [registry_discover config hcatalog.toSteady category s s,
      registry_discover config hcatalog.toSteady category t s]
  have hformat : (discover config catalog s).value.keyFormat =
      (discover config catalog t).value.keyFormat := by
    rw [keyFormat_discover config hcatalog s s, keyFormat_discover config hcatalog t s]
  exact (Suite.mk.injEq ..).mpr ⟨hregistry .kex, hregistry .publicKey, hregistry .cipher,
    hregistry .mac, hregistry .compression, hformat, rfl, rfl⟩

/-- **A configuration has the same result in every state.** -/
theorem result_configure_congr (hcatalog : catalog.Constant) (s t : σ) :
    (configure config catalog s).1.result = (configure config catalog t).1.result := by
  show (applyDefaults config _).result = (applyDefaults config _).result
  rw [value_discover_congr config hcatalog s t]

end Suite

end SecureShell

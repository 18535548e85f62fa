import SecureShell.Proofs.Algorithm.Suite

/-!
# Suites that can come about

The registries of a suite are open to changes, and each of them can be replaced. So a suite that
can come about (`Suite.Reachable`) need not have the built-in names, nor even any; its categories
need not stem from one configuration either. Its registries are well-formed all the same
(`Suite.Reachable.wellFormed`), since configuring a suite does nothing to a registry but register
names and move the default.
-/

namespace SecureShell

namespace Registry

variable {σ α : Type}

/-- A registry that is made of a list has come about by registration alone. -/
theorem wellFormed_ofList (category : Category) (l : List (String × Option (Factory σ α))) :
    (ofList category l).WellFormed :=
  (wellFormed_empty category).registerAll l

theorem Discovered.wellFormed {table : Table σ α} {es : List Extension} {base r : Registry σ α}
    (h : Discovered table es base r) (hbase : base.WellFormed) : r.WellFormed := by
  obtain ⟨s, log, rfl⟩ := h
  exact WellFormed.discover hbase table es

theorem WellFormed.moveDefault {asked : Option String} {r r' : Registry σ α}
    (hr : r.WellFormed) (h : r.moveDefault asked = .ok r') : r'.WellFormed := by
  rcases asked with - | name
  · exact Except.ok.inj h ▸ hr
  · exact hr.setDefault h

end Registry

namespace Suite

variable {σ : Type}

/-- All registries of a suite are well-formed. -/
structure WellFormed (x : Suite σ) : Prop where
  /-- Key exchange methods. -/
  kex : x.kex.WellFormed
  /-- Public key algorithms. -/
  publicKey : x.publicKey.WellFormed
  /-- Encryption algorithms. -/
  cipher : x.cipher.WellFormed
  /-- Message authentication codes. -/
  mac : x.mac.WellFormed
  /-- Compression algorithms. -/
  compression : x.compression.WellFormed

theorem WellFormed.registry {x : Suite σ} (h : x.WellFormed) (category : Category) :
    (x.registry category).WellFormed := by
  cases category with
  | kex => exact h.kex
  | publicKey => exact h.publicKey
  | cipher => exact h.cipher
  | mac => exact h.mac
  | compression => exact h.compression

theorem wellFormed_of_registry {x : Suite σ}
    (h : ∀ category, (x.registry category).WellFormed) : x.WellFormed :=
  ⟨h .kex, h .publicKey, h .cipher, h .mac, h .compression⟩

/-- What that says of a category. -/
theorem WellFormed.of_category {x : Suite σ} (h : x.WellFormed) (category : Category) :
    (x.names category).Nodup ∧ (∀ n ∈ x.names category, isAlgorithmName n = true) ∧
      (x.names category ≠ [] → x.defaultName category ∈ x.names category) := by
  have hr := h.registry category
  rw [← names_registry, ← defaultName_registry]
  exact ⟨hr.nodup, hr.valid, hr.defaultName_mem⟩

variable [Entropy σ]

theorem wellFormed_builtin : (builtin : Suite σ).WellFormed :=
  wellFormed_of_registry fun category ↦ by
    cases category <;> exact Registry.wellFormed_ofList _ _

/-- **A configured suite is well-formed.** -/
theorem wellFormed_of_configure {config : Configuration} {catalog : Catalog σ} {s : σ}
    {x : Suite σ} (h : (configure config catalog s).1.result = .ok x) : x.WellFormed :=
  wellFormed_of_registry fun category ↦
    ((discovered config catalog s category).wellFormed
      (wellFormed_builtin.registry category)).moveDefault ((moves_of_configure h).registry category)

/-- The registries that can come to stand in a place of a suite. -/
inductive Arises {α : Type} (place : Suite σ → Registry σ α) : Registry σ α → Prop where
  /-- One without entries. -/
  | empty (category : Category) : Arises place (.empty category)
  /-- The one in the same place of a suite that is configured. -/
  | configured {config : Configuration} {catalog : Catalog σ} {s : σ} {x : Suite σ}
    (h : (configure config catalog s).1.result = .ok x) : Arises place (place x)
  /-- What a change makes of one that can. -/
  | changed {r : Registry σ α} (h : Arises place r) (c : Registry.Change σ α) :
    Arises place (r.change c).2

theorem Arises.wellFormed {α : Type} {place : Suite σ → Registry σ α}
    (hplace : ∀ x : Suite σ, x.WellFormed → (place x).WellFormed) {r : Registry σ α}
    (h : Arises place r) : r.WellFormed := by
  induction h with
  | empty category => exact Registry.wellFormed_empty category
  | configured hx => exact hplace _ (wellFormed_of_configure hx)
  | changed _ c ih => exact ih.change c

/-- Each registry of a suite can have come about, whatever the others are. -/
structure Reachable (x : Suite σ) : Prop where
  /-- Key exchange methods. -/
  kex : Arises Suite.kex x.kex
  /-- Public key algorithms. -/
  publicKey : Arises Suite.publicKey x.publicKey
  /-- Encryption algorithms. -/
  cipher : Arises Suite.cipher x.cipher
  /-- Message authentication codes. -/
  mac : Arises Suite.mac x.mac
  /-- Compression algorithms. -/
  compression : Arises Suite.compression x.compression

/-- **A suite that can come about is well-formed.** -/
theorem Reachable.wellFormed {x : Suite σ} (h : x.Reachable) : x.WellFormed where
  kex := h.kex.wellFormed fun _ hx ↦ hx.kex
  publicKey := h.publicKey.wellFormed fun _ hx ↦ hx.publicKey
  cipher := h.cipher.wellFormed fun _ hx ↦ hx.cipher
  mac := h.mac.wellFormed fun _ hx ↦ hx.mac
  compression := h.compression.wellFormed fun _ hx ↦ hx.compression

end Suite

end SecureShell

import SecureShell.Algorithm.Suite
import SecureShell.Proofs.Algorithm.Candidates

/-!
# Suites: which names there are

A suite that a configuration gives has in each category the built-in names, in their places, and
after them names that can be advertised (`names_of_configure_eq`). Moving the defaults can make a
configuration fail but touches no name, so everything about names is settled by discovery.

The categories have algorithms of different types but are dealt with alike, so what holds of one of
them is said of the registry of a category (`Suite.registry`).
-/

namespace SecureShell

/-- A computation followed by another succeeds if both do. -/
theorem Attempt.result_bind_eq_ok {ε ρ α β : Type} {a : Attempt ε ρ α} {f : α → Attempt ε ρ β}
    {y : β} : (a >>= f).result = .ok y ↔ ∃ x, a.result = .ok x ∧ (f x).result = .ok y := by
  show (a.andThen f).result = _ ↔ _
  rcases h : a.result with e | x
  · simp [andThen, h]
  · simp [andThen, h]

/-! ### Moving a default that may be asked for -/

namespace Registry

variable {σ α : Type}

/-- Moves the default if a name is asked for. -/
def moveDefault (asked : Option String) (r : Registry σ α) :
    Except AlgorithmError (Registry σ α) :=
  match asked with
  | none => .ok r
  | some name => r.setDefault name

theorem moveDefault_eq_ok_iff {asked : Option String} {r r' : Registry σ α} :
    r.moveDefault asked = .ok r' ↔
      (∀ n, asked = some n → n ∈ r.names) ∧
        r' = { r with defaultName := asked.getD r.defaultName } := by
  rcases asked with - | name
  · simpa [moveDefault] using eq_comm
  · by_cases hmem : name ∈ r.names
    · simp [moveDefault, setDefault_eq, hmem, eq_comm]
    · simp [moveDefault, setDefault_eq, hmem]

/-- Moving a default touches no name. -/
theorem names_of_moveDefault {asked : Option String} {r r' : Registry σ α}
    (h : r.moveDefault asked = .ok r') : r'.names = r.names := by
  obtain ⟨-, rfl⟩ := moveDefault_eq_ok_iff.1 h
  rfl

theorem moveDefault_eq_error_iff {asked : Option String} {r : Registry σ α} {e : AlgorithmError} :
    r.moveDefault asked = .error e ↔ ∃ n, asked = some n ∧ n ∉ r.names ∧ e = .unknown n := by
  rcases asked with - | name
  · simp [moveDefault]
  · by_cases hmem : name ∈ r.names
    · simp [moveDefault, setDefault_eq, hmem]
    · simp [moveDefault, setDefault_eq, hmem, eq_comm]

end Registry

/-! ### Registries and tables by category -/

/-- The algorithms of a category. -/
abbrev Category.Algorithm : Category → Type
  | kex => KeyExchange
  | publicKey => Verifier
  | cipher => CipherContext
  | mac => MacContext
  | compression => Compression

/-- The registry of a category. -/
def Suite.registry {σ : Type} (x : Suite σ) : (category : Category) → Registry σ category.Algorithm
  | .kex => x.kex
  | .publicKey => x.publicKey
  | .cipher => x.cipher
  | .mac => x.mac
  | .compression => x.compression

/-- The implementations for a category. -/
def Catalog.table {σ : Type} (c : Catalog σ) : (category : Category) → Table σ category.Algorithm
  | .kex => c.kex
  | .publicKey => c.publicKey
  | .cipher => c.cipher
  | .mac => c.mac
  | .compression => c.compression

/-- A catalog of factories each of which always or never succeeds. -/
structure Catalog.Steady {σ : Type} (c : Catalog σ) : Prop where
  /-- Key exchange methods. -/
  kex : ∀ id f, Roster.get? c.kex id = some f → Factory.Steady f
  /-- Public key algorithms. -/
  publicKey : ∀ id f, Roster.get? c.publicKey id = some f → Factory.Steady f
  /-- Encryption algorithms. -/
  cipher : ∀ id f, Roster.get? c.cipher id = some f → Factory.Steady f
  /-- Message authentication codes. -/
  mac : ∀ id f, Roster.get? c.mac id = some f → Factory.Steady f
  /-- Compression algorithms. -/
  compression : ∀ id f, Roster.get? c.compression id = some f → Factory.Steady f

theorem Catalog.Steady.table {σ : Type} {c : Catalog σ} (h : c.Steady) (category : Category) :
    ∀ id f, Roster.get? (c.table category) id = some f → Factory.Steady f := by
  cases category with
  | kex => exact h.kex
  | publicKey => exact h.publicKey
  | cipher => exact h.cipher
  | mac => exact h.mac
  | compression => exact h.compression

namespace Suite

variable {σ : Type}

theorem names_registry (x : Suite σ) (category : Category) :
    (x.registry category).names = x.names category := by
  cases category <;> rfl

theorem defaultName_registry (x : Suite σ) (category : Category) :
    (x.registry category).defaultName = x.defaultName category := by
  cases category <;> rfl

/-! ### Moving the defaults touches no name -/

theorem result_applyDefault {α : Type} (config : CategoryConfiguration) (r : Registry σ α) :
    (applyDefault config r).result = r.moveDefault config.defaultName := by
  rcases hasked : config.defaultName with - | name
  · rw [applyDefault, hasked]
    rfl
  · rw [applyDefault, hasked]
    show (Attempt.andThen (.quiet (r.setDefault name)) _).result = r.setDefault name
    rcases r.setDefault name with e | r'
    · rfl
    · rfl

/-- What moving the defaults does to a suite. -/
structure Moves (config : Configuration) (x y : Suite σ) : Prop where
  /-- In each category the default is moved if a name is asked for. -/
  registry : ∀ category, (x.registry category).moveDefault (config.category category).defaultName =
    .ok (y.registry category)
  /-- So it is with the public key formats. -/
  keyFormat : x.keyFormat.moveDefault config.defaultKeyFormat = .ok y.keyFormat
  /-- The private key formats are those of the configuration. -/
  privateFormats : y.privateFormats = config.privateFormats
  /-- Their default is one of them, if there are any. -/
  defaultPrivateFormat : privateDefault config = .ok y.defaultPrivateFormat

/-- **If all defaults can be moved, each of them can.** -/
theorem moves_of_applyDefaults {config : Configuration} {x y : Suite σ}
    (h : (applyDefaults config x).result = .ok y) : Moves config x y := by
  obtain ⟨kex, hkex, h⟩ := Attempt.result_bind_eq_ok.1 h
  obtain ⟨publicKey, hpublicKey, h⟩ := Attempt.result_bind_eq_ok.1 h
  obtain ⟨cipher, hcipher, h⟩ := Attempt.result_bind_eq_ok.1 h
  obtain ⟨mac, hmac, h⟩ := Attempt.result_bind_eq_ok.1 h
  obtain ⟨compression, hcompression, h⟩ := Attempt.result_bind_eq_ok.1 h
  obtain ⟨keyFormat, hkeyFormat, h⟩ := Attempt.result_bind_eq_ok.1 h
  obtain ⟨privateFormat, hprivateFormat, h⟩ := Attempt.result_bind_eq_ok.1 h
  obtain rfl := Except.ok.inj h
  rw [result_applyDefault] at hkex hpublicKey hcipher hmac hcompression
  refine ⟨fun category ↦ ?_, hkeyFormat, rfl, hprivateFormat⟩
  cases category with
  | kex => exact hkex
  | publicKey => exact hpublicKey
  | cipher => exact hcipher
  | mac => exact hmac
  | compression => exact hcompression

/-! ### Discovery, category by category -/

variable [Entropy σ]

/-- The built-in names, which are the same in every state type. -/
theorem names_builtin (category : Category) :
    (builtin : Suite σ).names category = match category with
      | .kex => ["curve25519-sha256@libssh.org", "curve25519-sha256"]
      | .publicKey => ["ssh-ed25519"]
      | .cipher => ["chacha20-poly1305@openssh.com"]
      | .mac => ["hmac-sha2-256", "hmac-sha1"]
      | .compression => ["none"] := by
  cases category <;> rfl

theorem valid_of_mem_names_builtin {category : Category} {name : String}
    (h : name ∈ (builtin : Suite σ).names category) : isAlgorithmName name = true := by
  have hall : ∀ c : Category, ∀ n ∈ (builtin : Suite σ).names c, isAlgorithmName n = true := by
    intro c
    rw [names_builtin]
    cases c <;> decide
  exact hall category name h

variable (config : Configuration) (catalog : Catalog σ) (s : σ)

/-- The registries of the categories are discovered one after the other, each in the state that the
one before has left. -/
theorem discovered (category : Category) :
    Registry.Discovered (catalog.table category) (config.category category).extensions
      ((builtin : Suite σ).registry category)
      ((discover config catalog s).value.registry category) := by
  cases category <;> exact ⟨_, _, rfl⟩

/-- The names of a category after discovery: the built-in ones, and names that can be advertised. -/
theorem discover_extends (category : Category) :
    (builtin : Suite σ).names category <+: (discover config catalog s).value.names category ∧
      ∀ n ∈ (discover config catalog s).value.names category,
        n ∈ (builtin : Suite σ).names category ∨ isAlgorithmName n = true := by
  have h := (discovered config catalog s category).extends
  rw [← names_registry, ← names_registry]
  exact ⟨h.isPrefix, h.valid⟩

variable {config catalog}

/-- With steady factories the order of the extensions plays no part in what is registered. -/
theorem mem_names_discover_perm (hsteady : catalog.Steady) {config' : Configuration}
    (hperm : ∀ c, (config'.category c).extensions.Perm (config.category c).extensions) (s' : σ)
    (category : Category) (n : String) :
    n ∈ (discover config' catalog s').value.names category ↔
      n ∈ (discover config catalog s).value.names category := by
  rw [← names_registry, ← names_registry]
  exact (discovered config catalog s category).mem_names_iff_of_perm (hsteady.table category)
    (hperm category) (discovered config' catalog s' category) n

/-! ### Configured suites -/

variable {s : σ} {x : Suite σ}

theorem moves_of_configure (h : (configure config catalog s).1.result = .ok x) :
    Moves config (discover config catalog s).value x :=
  moves_of_applyDefaults h

/-- A suite that a configuration gives has the names that were discovered. -/
theorem names_of_configure_eq (h : (configure config catalog s).1.result = .ok x)
    (category : Category) :
    x.names category = (discover config catalog s).value.names category := by
  rw [← names_registry, ← names_registry]
  exact Registry.names_of_moveDefault ((moves_of_configure h).registry category)

/-- **The built-in names stand at the front of every configured suite.** -/
theorem builtin_prefix_of_configure (h : (configure config catalog s).1.result = .ok x)
    (category : Category) : (builtin : Suite σ).names category <+: x.names category := by
  rw [names_of_configure_eq h]
  exact (discover_extends config catalog s category).1

/-- **Every name of a configured suite can be advertised.** -/
theorem valid_of_configure (h : (configure config catalog s).1.result = .ok x)
    {category : Category} {n : String} (hn : n ∈ x.names category) : isAlgorithmName n = true := by
  rw [names_of_configure_eq h] at hn
  rcases (discover_extends config catalog s category).2 n hn with hbuiltin | hvalid
  · exact valid_of_mem_names_builtin hbuiltin
  · exact hvalid

end Suite

end SecureShell

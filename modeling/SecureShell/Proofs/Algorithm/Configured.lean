import SecureShell.Proofs.Algorithm.Discovery

/-!
# Configured suites: what a configuration comes to

Seven defaults can be asked for, one in each category, one for the public key formats and one for
the private key formats (`Override`). Each is looked up in what discovery has found, in a fixed
order, and the first that is not there decides on the error (`Suite.error?_applyDefaults`). If all
are there, every registry of the suite is what discovery has found, with its default moved
(`Suite.registry_of_configure`, `Suite.keyFormat_of_configure`).

With constant factories all that can be told from the configuration and the catalog
(`Suite.mem_offered_discover_iff`): which names an override can have is a question of single
extensions and formats, whatever stands before and after them.
-/

namespace SecureShell

/-! ### Errors of an attempt -/

namespace Attempt

variable {ε ρ α β : Type}

/-- The error of an attempt, if it has failed. -/
def error? (a : Attempt ε ρ α) : Option ε :=
  match a.result with
  | .ok _ => none
  | .error e => some e

theorem error?_eq_some_iff {a : Attempt ε ρ α} {e : ε} :
    a.error? = some e ↔ a.result = .error e := by
  rw [error?]
  rcases a.result with e' | x
  · simp
  · simp

theorem error?_eq_none_iff {a : Attempt ε ρ α} :
    a.error? = none ↔ ∃ x, a.result = .ok x := by
  rw [error?]
  rcases a.result with e | x
  · simp
  · simp

/-- Of two computations the first error counts, if the second has the same error after every
result of the first. -/
theorem error?_bind {a : Attempt ε ρ α} {f : α → Attempt ε ρ β} {later : Option ε}
    (h : ∀ x, (f x).error? = later) : (a >>= f).error? = a.error?.or later := by
  show (a.andThen f).error? = _
  rcases ha : a.result with e | x
  · simp [andThen, error?, ha]
  · have hx := h x
    simp only [error?] at hx
    simp [andThen, error?, ha, hx]

end Attempt

/-! ### Overrides -/

/-- A default that a configuration can ask for. -/
inductive Override where
  /-- The default of a category. -/
  | category (category : Category)
  /-- The default public key format. -/
  | keyFormat
  /-- The default private key format. -/
  | privateFormat
  deriving DecidableEq

/-- All overrides, in the order in which they are looked at. -/
def Override.all : List Override := Category.all.map .category ++ [.keyFormat, .privateFormat]

theorem Override.mem_all (o : Override) : o ∈ all := by
  rcases o with (_ | _ | _ | _ | _) | _ | _ <;> decide

namespace Configuration

/-- The name that a configuration asks for. -/
def asked (config : Configuration) : Override → Option String
  | .category c => (config.category c).defaultName
  | .keyFormat => config.defaultKeyFormat
  | .privateFormat => config.defaultPrivateFormat

variable {σ : Type} [Entropy σ]

/-- The names that there are for an override: built-in ones, those of the extensions and formats
that can be constructed and advertised, and the private key formats that the configuration lists. -/
def Offers (config : Configuration) (catalog : Catalog σ) : Override → String → Prop
  | .category c, n => n ∈ (Suite.builtin : Suite σ).names c ∨ isAlgorithmName n = true ∧
      ∃ e ∈ (config.category c).extensions, n = e.name ∧ Registry.Constructs (catalog.table c) e
  | .keyFormat, n => n = "openssh" ∨ isAlgorithmName n = true ∧
      ∃ id ∈ config.keyFormats, Suite.Presents catalog.keyFormat id n
  | .privateFormat, n => n ∈ config.privateFormats

/-- What an override asks for is there, if it asks for anything. -/
def Fulfils (config : Configuration) (catalog : Catalog σ) (o : Override) : Prop :=
  ∀ n, config.asked o = some n → config.Offers catalog o n

/-- The default where none is asked for: the first built-in name, or the first private key format
that the configuration lists. -/
def standard (σ : Type) [Entropy σ] (config : Configuration) : Override → Option String
  | .category c => ((Suite.builtin : Suite σ).names c).head?
  | .keyFormat => some "openssh"
  | .privateFormat => config.privateFormats.head?

end Configuration

namespace Suite

variable {σ : Type}

/-- The default that an override is about. -/
def default? (x : Suite σ) : Override → Option String
  | .category c => some (x.defaultName c)
  | .keyFormat => some x.keyFormat.defaultName
  | .privateFormat => x.defaultPrivateFormat

/-- The names among which an override is looked up, once the extensions have been discovered. -/
def offered (config : Configuration) (x : Suite σ) : Override → List String
  | .category c => x.names c
  | .keyFormat => x.keyFormat.names
  | .privateFormat => config.privateFormats

/-- The error of one override. -/
def refusal? (config : Configuration) (x : Suite σ) (o : Override) : Option AlgorithmError :=
  (config.asked o).bind fun n ↦ if n ∈ x.offered config o then none else some (.unknown n)

theorem refusal?_eq_none_iff {config : Configuration} {x : Suite σ} {o : Override} :
    x.refusal? config o = none ↔ ∀ n, config.asked o = some n → n ∈ x.offered config o := by
  rw [refusal?]
  rcases config.asked o with - | n
  · simp
  · simp

theorem refusal?_eq_some_iff {config : Configuration} {x : Suite σ} {o : Override}
    {e : AlgorithmError} :
    x.refusal? config o = some e ↔
      ∃ n, config.asked o = some n ∧ n ∉ x.offered config o ∧ e = .unknown n := by
  rw [refusal?]
  rcases config.asked o with - | n
  · simp
  · by_cases hmem : n ∈ x.offered config o
    · simp [hmem]
    · simp [hmem, eq_comm]

/-! ### Moving the defaults -/

theorem error?_applyDefault (config : Configuration) (x : Suite σ) (category : Category) :
    (applyDefault (config.category category) (x.registry category)).error? =
      x.refusal? config (.category category) := by
  refine Option.ext fun e ↦ ?_
  rw [Attempt.error?_eq_some_iff, result_applyDefault, Registry.moveDefault_eq_error_iff,
    refusal?_eq_some_iff, names_registry]
  rfl

theorem error?_applyFormatDefault (config : Configuration) (x : Suite σ) :
    (Attempt.quiet (applyFormatDefault config x.keyFormat) :
      Attempt AlgorithmError AlgorithmReport _).error? = x.refusal? config .keyFormat := by
  refine Option.ext fun e ↦ ?_
  rw [Attempt.error?_eq_some_iff, refusal?_eq_some_iff]
  exact Registry.moveDefault_eq_error_iff

theorem error?_privateDefault (config : Configuration) (x : Suite σ) :
    (Attempt.quiet (privateDefault config) : Attempt AlgorithmError AlgorithmReport _).error? =
      x.refusal? config .privateFormat := by
  show Attempt.error? ⟨privateDefault config, []⟩ =
    config.defaultPrivateFormat.bind fun n ↦
      if n ∈ config.privateFormats then none else some (.unknown n)
  rcases hasked : config.defaultPrivateFormat with - | name
  · simp [privateDefault, hasked, Attempt.error?]
  · by_cases hmem : name ∈ config.privateFormats
    · simp [privateDefault, hasked, hmem, Attempt.error?]
    · simp [privateDefault, hasked, hmem, Attempt.error?]

/-- **The first override that is refused decides on the error.** -/
theorem error?_applyDefaults (config : Configuration) (x : Suite σ) :
    (applyDefaults config x).error? = Override.all.findSome? (x.refusal? config) := by
  have hcategory := error?_applyDefault config x
  have hcons : ∀ (o : Override) (l : List Override), (o :: l).findSome? (x.refusal? config) =
      (x.refusal? config o).or (l.findSome? (x.refusal? config)) := by
    intro o l
    rw [List.findSome?_cons]
    cases x.refusal? config o <;> rfl
  have hall : Override.all = [.category .kex, .category .publicKey, .category .cipher,
    .category .mac, .category .compression, .keyFormat, .privateFormat] := rfl
  simp only [hall, hcons]
  rw [← hcategory .kex, ← hcategory .publicKey, ← hcategory .cipher, ← hcategory .mac,
    ← hcategory .compression, ← error?_applyFormatDefault, ← error?_privateDefault]
  exact Attempt.error?_bind fun _ ↦ Attempt.error?_bind fun _ ↦ Attempt.error?_bind fun _ ↦
    Attempt.error?_bind fun _ ↦ Attempt.error?_bind fun _ ↦ Attempt.error?_bind fun _ ↦
      Attempt.error?_bind fun _ ↦ rfl

theorem privateDefault_eq_ok {config : Configuration} {default : Option String}
    (h : privateDefault config = .ok default) :
    default = config.defaultPrivateFormat.or config.privateFormats.head? := by
  rw [privateDefault] at h
  split at h
  · rename_i hasked
    rw [hasked, ← Except.ok.inj h]
    rfl
  · rename_i name hasked
    split at h
    · rw [hasked, ← Except.ok.inj h]
      rfl
    · cases h

/-! ### Configured suites -/

variable [Entropy σ] {config : Configuration} {catalog : Catalog σ} {s : σ} {x : Suite σ}

/-- **What is registered in a category**: the built-in algorithms and the candidates, with the
default that is asked for. -/
theorem registry_of_configure (hcatalog : catalog.Steady)
    (h : (configure config catalog s).1.result = .ok x) (category : Category) :
    let base := (builtin : Suite σ).registry category
    let found := base.registerAll
      (Registry.candidates (catalog.table category) (config.category category).extensions s)
    x.registry category = { found with
      defaultName := (config.category category).defaultName.getD base.defaultName } := by
  intro base found
  have hmoved := (moves_of_configure h).registry category
  rw [registry_discover config hcatalog category s s] at hmoved
  have hne : base.names ≠ [] := by
    cases category <;> exact List.cons_ne_nil _ _
  rw [(Registry.moveDefault_eq_ok_iff.1 hmoved).2, Registry.defaultName_registerAll hne]

/-- What is registered of formats. -/
theorem keyFormat_of_configure (hcatalog : catalog.Constant)
    (h : (configure config catalog s).1.result = .ok x) :
    x.keyFormat =
      { (builtin : Suite σ).keyFormat.registerAll
          (formatCandidates catalog.keyFormat config.keyFormats s) with
        defaultName := config.defaultKeyFormat.getD "openssh" } := by
  have hmoved := (moves_of_configure h).keyFormat
  rw [keyFormat_discover config hcatalog s s] at hmoved
  have hne : (builtin : Suite σ).keyFormat.names ≠ [] := List.cons_ne_nil _ _
  rw [(Registry.moveDefault_eq_ok_iff.1 hmoved).2, Registry.defaultName_registerAll hne]
  rfl

/-- **Each default is the one that was asked for, or else the standard one.** -/
theorem default?_of_configure (hcatalog : catalog.Constant)
    (h : (configure config catalog s).1.result = .ok x) (o : Override) :
    x.default? o = (config.asked o).or (config.standard σ o) := by
  cases o with
  | category c =>
    have hdefault : ((builtin : Suite σ).names c).head? =
        some ((builtin : Suite σ).registry c).defaultName := by
      cases c <;> rfl
    show some (x.defaultName c) = (config.category c).defaultName.or _
    rw [← defaultName_registry, registry_of_configure hcatalog.toSteady h c]
    show some ((config.category c).defaultName.getD _) = _
    rw [Configuration.standard, hdefault]
    cases (config.category c).defaultName <;> rfl
  | keyFormat =>
    show some x.keyFormat.defaultName = config.defaultKeyFormat.or (some "openssh")
    rw [keyFormat_of_configure hcatalog h]
    cases config.defaultKeyFormat <;> rfl
  | privateFormat => exact privateDefault_eq_ok (moves_of_configure h).defaultPrivateFormat

/-- **What discovery has found can be told from the configuration and the catalog.** -/
theorem mem_offered_discover_iff (hcatalog : catalog.Constant) (o : Override) (n : String) :
    n ∈ (discover config catalog s).value.offered config o ↔ config.Offers catalog o n := by
  cases o with
  | category c =>
    obtain ⟨t, log, h⟩ := discovered config catalog s c
    show n ∈ (discover config catalog s).value.names c ↔ _ ∨ _
    rw [← names_registry, h, Registry.mem_names_discover (hcatalog.toSteady.table c),
      names_registry]
  | keyFormat =>
    have hbuiltin : n ∈ (builtin : Suite σ).keyFormat.names ↔ n = "openssh" :=
      List.mem_singleton
    show n ∈ (discover config catalog s).value.keyFormat.names ↔ _ ∨ _
    rw [keyFormat_discover config hcatalog s s, Registry.mem_names_registerAll, hbuiltin,
      exists_mem_formatCandidates_iff hcatalog.keyFormat]
  | privateFormat => exact Iff.rfl

theorem exists_configure_eq_ok_iff (hcatalog : catalog.Constant) :
    (∃ x, (configure config catalog s).1.result = .ok x) ↔ ∀ o, config.Fulfils catalog o := by
  show (∃ x, (applyDefaults config (discover config catalog s).value).result = .ok x) ↔ _
  rw [← Attempt.error?_eq_none_iff, error?_applyDefaults, List.findSome?_eq_none_iff]
  simp only [refusal?_eq_none_iff, mem_offered_discover_iff hcatalog, Override.mem_all,
    true_implies]
  rfl

/-- **The error is that of the first override that is not fulfilled.** -/
theorem configure_eq_error_iff (hcatalog : catalog.Constant) {e : AlgorithmError} :
    (configure config catalog s).1.result = .error e ↔
      ∃ before o after n, Override.all = before ++ o :: after ∧
        (∀ p ∈ before, config.Fulfils catalog p) ∧ config.asked o = some n ∧
        ¬config.Offers catalog o n ∧ e = .unknown n := by
  show (applyDefaults config (discover config catalog s).value).result = .error e ↔ _
  rw [← Attempt.error?_eq_some_iff, error?_applyDefaults, List.findSome?_eq_some_iff]
  simp only [refusal?_eq_none_iff, refusal?_eq_some_iff, mem_offered_discover_iff hcatalog]
  constructor
  · rintro ⟨before, o, after, hall, ⟨n, hasked, hnot, he⟩, hbefore⟩
    exact ⟨before, o, after, n, hall, hbefore, hasked, hnot, he⟩
  · rintro ⟨before, o, after, n, hall, hbefore, hasked, hnot, he⟩
    exact ⟨before, o, after, hall, ⟨n, hasked, hnot, he⟩, hbefore⟩

end Suite

end SecureShell

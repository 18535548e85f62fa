import SecureShell.Algorithm.Registry

/-!
# Extensions

An extension is a name for an implementation that a catalog table knows. Discovery goes through
the extensions in order, constructs each implementation once to see that it can be had, and
registers those that can. Whatever stands in the way is reported, and the extension left out.

Discovery, registration and the move of the default are all that a registry can be changed by; as
values they are what a history of a registry consists of (`Registry.Change`).
-/

namespace SecureShell

/-- The implementations of one category by their identifiers. -/
abbrev Table (σ α : Type) := Roster (Factory σ α)

/-- An additional algorithm name and the identifier of its implementation. -/
structure Extension where
  /-- The name to advertise. -/
  name : String
  /-- The identifier in the catalog. -/
  implementation : String
  deriving DecidableEq, Repr

/-- A value that is under construction, with the state that factories run in and the reports so
far. -/
structure Progress (σ α : Type) where
  /-- The value as it stands. -/
  value : α
  /-- The state after the factories that have run. -/
  state : σ
  /-- The reports, in order. -/
  log : List AlgorithmReport

namespace Registry

variable {σ α : Type}

/-- Installs one extension if its implementation is in the table and can be constructed. -/
def install (table : Table σ α) (p : Progress σ (Registry σ α)) (e : Extension) :
    Progress σ (Registry σ α) :=
  let category := p.value.category
  match Roster.get? table e.implementation with
  | none => { p with log := p.log ++ [.missing category e.name e.implementation] }
  | some factory =>
    match factory p.state with
    | (.error error, s) => ⟨p.value, s, p.log ++ [.skipped category e.name error]⟩
    | (.ok _, s) =>
      match p.value.register e.name (some factory) with
      | (true, r) => ⟨r, s, p.log ++ [.installed category e.name]⟩
      | (false, r) => ⟨r, s, p.log ++ registerReports false category e.name⟩

/-- Installs extensions in order. -/
def discover (table : Table σ α) (extensions : List Extension) (p : Progress σ (Registry σ α)) :
    Progress σ (Registry σ α) :=
  extensions.foldl (install table) p

/-! ### Changes -/

/-- A change that a registry is asked for. -/
inductive Change (σ α : Type) where
  /-- Registers a name, with a factory or without. -/
  | register (name : String) (factory : Option (Factory σ α))
  /-- Moves the default. -/
  | setDefault (name : String)
  /-- Discovers extensions in a table, the first of whose factories runs in the given state. -/
  | discover (table : Table σ α) (extensions : List Extension) (state : σ)

/-- What is said to a change. -/
inductive Reply where
  /-- Whether a name was accepted. -/
  | registered (accepted : Bool)
  /-- The error for which the default was not moved, if there is one. -/
  | moved (error : Option AlgorithmError)
  /-- Discovery is never refused. -/
  | discovered
  deriving DecidableEq

/-- The reply to a change, and the registry after it. -/
def change (r : Registry σ α) : Change σ α → Reply × Registry σ α
  | .register name factory =>
    let (accepted, r') := r.register name factory
    (.registered accepted, r')
  | .setDefault name =>
    match r.setDefault name with
    | .ok r' => (.moved none, r')
    | .error e => (.moved (some e), r)
  | .discover table extensions state =>
    (.discovered, (Registry.discover table extensions ⟨r, state, []⟩).value)

/-- The registry after several changes. -/
def after (r : Registry σ α) (changes : List (Change σ α)) : Registry σ α :=
  changes.foldl (fun r c ↦ (r.change c).2) r

end Registry

end SecureShell

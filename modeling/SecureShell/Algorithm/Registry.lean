import SecureShell.Algorithm.Report
import SecureShell.Bytes
import SecureShell.Roster

/-!
# Registries

The algorithms of one category, in the order in which they were registered, and the one that is
used unless another is asked for. The first name that is registered becomes the default; later the
default can only move to another registered name.

A registry holds factories rather than algorithms. A factory runs in a state of type `σ`, from
which it may draw random bytes or anything else that it depends on, and it may fail.
-/

namespace SecureShell

/-- A way to construct an algorithm, which may fail and may depend on a state. -/
abbrev Factory (σ α : Type) := σ → Except AlgorithmError α × σ

/-- The factory that always gives the same value. -/
def Factory.ofValue {σ α : Type} (a : α) : Factory σ α := fun s ↦ (.ok a, s)

/-- Whether a name can be advertised: printable ASCII without blanks and commas, and from one to
sixty-four characters long. -/
def isAlgorithmName (name : String) : Bool :=
  let b := utf8 name
  !b.isEmpty && b.length ≤ 64 && b.all fun c ↦ 0x21 ≤ c && c ≤ 0x7e && c != 0x2c

/-- The algorithms of a category. An entry without a factory stands for doing nothing. -/
structure Registry (σ α : Type) where
  /-- The category. -/
  category : Category
  /-- The names with their factories, in the order of registration. -/
  entries : Roster (Option (Factory σ α))
  /-- The default, or the empty text as long as there are no entries. -/
  defaultName : String

namespace Registry

variable {σ α : Type}

/-- A registry without entries. -/
def empty (category : Category) : Registry σ α := ⟨category, [], ""⟩

/-- All names, in the order of registration. -/
def names (r : Registry σ α) : List String := Roster.names r.entries

/-- Whether a name is registered. -/
def contains (r : Registry σ α) (name : String) : Bool := Roster.contains r.entries name

/-- The number of entries. -/
def size (r : Registry σ α) : Nat := r.entries.length

/-- Moves the default to another registered name. -/
def setDefault (r : Registry σ α) (name : String) : Except AlgorithmError (Registry σ α) :=
  if r.contains name then .ok { r with defaultName := name } else .error (.unknown name)

/-- Registers a name, and tells whether it was accepted. A name that is registered already gets the
new factory and keeps its place; a name that cannot be advertised is refused. -/
def register (r : Registry σ α) (name : String) (factory : Option (Factory σ α)) :
    Bool × Registry σ α :=
  if isAlgorithmName name then
    (true, { r with
      entries := Roster.put name factory r.entries
      defaultName := if r.entries.isEmpty then name else r.defaultName })
  else (false, r)

/-- What is reported of a registration: nothing, if the name was accepted. -/
def registerReports (accepted : Bool) (category : Category) (name : String) :
    List AlgorithmReport :=
  if accepted then [] else [.rejected category name]

/-- Constructs the algorithm of a name, or nothing if the entry has no factory. -/
def instantiate (r : Registry σ α) (name : String) (s : σ) :
    Attempt AlgorithmError AlgorithmReport (Option α) × σ :=
  match Roster.get? r.entries name with
  | none => (.quiet (.error (.notSupported name)), s)
  | some none => (.quiet (.ok none), s)
  | some (some factory) =>
    match factory s with
    | (.ok a, s) => (.quiet (.ok (some a)), s)
    | (.error e, s) => (⟨.error (.notSupported name), [.failed r.category name e]⟩, s)

/-- Constructs the default algorithm. -/
def instantiateDefault (r : Registry σ α) (s : σ) :
    Attempt AlgorithmError AlgorithmReport (Option α) × σ :=
  r.instantiate r.defaultName s

/-- What is shown of a registry. -/
def description (r : Registry σ α) : String :=
  Text.labelled "AlgorithmRegistry"
    [("category", r.category.title), ("names", Text.quotedList r.names),
      ("default", Text.quoted r.defaultName)]

end Registry

end SecureShell

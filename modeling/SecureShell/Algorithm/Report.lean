import SecureShell.Algorithm.Category
import SecureShell.Algorithm.Error
import SecureShell.Log
import SecureShell.Text.Quoted

/-!
# Reports about algorithms

What is reported while registries are filled, configured and asked for algorithms.
-/

namespace SecureShell

/-- Something that happened to a registry. -/
inductive AlgorithmReport where
  /-- A name was refused because it cannot stand in a name list. -/
  | rejected (category : Category) (name : String)
  /-- A registered algorithm could not be constructed. -/
  | failed (category : Category) (name : String) (error : AlgorithmError)
  /-- An extension was left out because the catalog has no such implementation. -/
  | missing (category : Category) (name implementation : String)
  /-- An extension was left out because it could not be constructed. -/
  | skipped (category : Category) (name : String) (error : AlgorithmError)
  /-- An extension was installed. -/
  | installed (category : Category) (name : String)
  /-- A public key format was left out because the catalog has no such implementation. -/
  | formatMissing (implementation : String)
  /-- A public key format was left out because it could not be constructed. -/
  | formatSkipped (implementation : String) (error : AlgorithmError)
  /-- A public key format was installed. -/
  | formatInstalled (name : String)
  /-- The default of a category was chosen. -/
  | defaulted (category : Category) (name : String)
  /-- A new configuration was put into service. -/
  | reconfigured
  deriving DecidableEq, Repr

/-- How much a report matters, and what it says. -/
def AlgorithmReport.record : AlgorithmReport → LogRecord
  | .rejected c name =>
    ⟨.warn, "Rejecting " ++ c.label ++ " algorithm " ++ Text.quoted name ++ ": invalid name"⟩
  | .failed c name e =>
    ⟨.debug, c.label ++ " algorithm " ++ name ++ " failed: " ++ e.message⟩
  | .missing c name implementation =>
    ⟨.warn, "Skipping " ++ c.label ++ " algorithm " ++ name ++ ": implementation " ++
      implementation ++ " not found"⟩
  | .skipped c name e =>
    ⟨.warn, "Skipping " ++ c.label ++ " algorithm " ++ name ++ ": " ++ e.message⟩
  | .installed c name => ⟨.info, "Installed " ++ c.label ++ " algorithm " ++ name⟩
  | .formatMissing implementation =>
    ⟨.warn, "Skipping public key format " ++ implementation ++ ": implementation not found"⟩
  | .formatSkipped implementation e =>
    ⟨.warn, "Skipping public key format " ++ implementation ++ ": " ++ e.message⟩
  | .formatInstalled name => ⟨.info, "Installed public key format " ++ name⟩
  | .defaulted c name => ⟨.debug, "Default " ++ c.label ++ " algorithm is " ++ name⟩
  | .reconfigured => ⟨.info, "Algorithms reconfigured"⟩

end SecureShell

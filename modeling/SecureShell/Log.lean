/-!
# Logs

What the library reports while it works. A report says what happened; its record has a level and a
text. An attempt is a computation that may fail and that keeps the reports of all it did, also of
what it did before it failed.
-/

namespace SecureShell

/-- How much a record matters. -/
inductive LogLevel where
  /-- Of interest when looking for a fault. -/
  | debug
  /-- A change that an operator may want to know of. -/
  | info
  /-- Something that was left undone. -/
  | warn
  deriving DecidableEq, Repr

/-- The name of a level. -/
def LogLevel.name : LogLevel → String
  | .debug => "DEBUG"
  | .info => "INFO"
  | .warn => "WARN"

/-- One line of a log. -/
structure LogRecord where
  /-- How much it matters. -/
  level : LogLevel
  /-- What it says. -/
  message : String
  deriving DecidableEq, Repr

/-- The text of a record, its level in front. -/
def LogRecord.line (r : LogRecord) : String := r.level.name ++ " " ++ r.message

/-- A computation that may fail with an `ε` and that leaves reports of type `ρ`. -/
structure Attempt (ε ρ α : Type) where
  /-- What came of it. -/
  result : Except ε α
  /-- What was reported, in order. -/
  log : List ρ

namespace Attempt

variable {ε ρ α β : Type}

/-- The second computation follows the first unless that failed; the reports of both are kept. -/
def andThen (a : Attempt ε ρ α) (f : α → Attempt ε ρ β) : Attempt ε ρ β :=
  match a.result with
  | .ok x => ⟨(f x).result, a.log ++ (f x).log⟩
  | .error e => ⟨.error e, a.log⟩

instance : Monad (Attempt ε ρ) where
  pure x := ⟨.ok x, []⟩
  bind := andThen

/-- A result without reports. -/
def quiet (result : Except ε α) : Attempt ε ρ α := ⟨result, []⟩

/-- A report. -/
def report (r : ρ) : Attempt ε ρ Unit := ⟨.ok (), [r]⟩

end Attempt

end SecureShell

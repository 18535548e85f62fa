import SecureShell.Algorithm.Suite

/-!
# Shared suites

A suite in service, which readers take as it is and which is replaced as a whole. A configuration
that fails leaves the old one in service.
-/

namespace SecureShell

variable {σ : Type}

/-- A suite in service. -/
structure SharedSuite (σ : Type) where
  /-- The suite that readers get now. -/
  current : Suite σ

namespace SharedSuite

/-- Puts another suite into service, and gives back the one before. -/
def replace (shared : SharedSuite σ) (x : Suite σ) : Suite σ × SharedSuite σ :=
  (shared.current, ⟨x⟩)

/-- Puts the suite of a configuration into service, if there is one. Nothing of the old suite goes
into it. -/
def reconfigure [Entropy σ] (config : Configuration) (catalog : Catalog σ)
    (shared : SharedSuite σ) (s : σ) :
    Attempt AlgorithmError AlgorithmReport Unit × SharedSuite σ × σ :=
  let (a, s) := Suite.configure config catalog s
  match a.result with
  | .error e => (⟨.error e, a.log⟩, shared, s)
  | .ok x => (⟨.ok (), a.log ++ [.reconfigured]⟩, (shared.replace x).2, s)

end SharedSuite

end SecureShell

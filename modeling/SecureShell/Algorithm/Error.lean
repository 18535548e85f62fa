/-!
# Errors of algorithms

Why an algorithm is not there, and why one that is there refuses its input.
-/

namespace SecureShell

/-- Why an algorithm cannot be had. -/
inductive AlgorithmError where
  /-- The name is not registered, or its implementation cannot be constructed. -/
  | notSupported (name : String)
  /-- A default was asked for under a name that is not registered. -/
  | unknown (name : String)
  deriving DecidableEq, Repr

/-- The text of an algorithm error. -/
def AlgorithmError.message : AlgorithmError → String
  | .notSupported name => "Algorithm not supported: " ++ name
  | .unknown name => "Unknown algorithm: " ++ name

/-- Why an algorithm refuses its input. -/
inductive CryptoError where
  /-- The key does not have the length that the algorithm needs. -/
  | invalidKeyLength
  /-- The input is too short, or longer than a packet may be. -/
  | invalidLength
  /-- The authentication tag does not belong to the data. -/
  | integrityCheckFailed
  /-- The public key is malformed or leads to no secret. -/
  | invalidPublicKey
  /-- There is no key yet, or the secret has been used up. -/
  | notInitialized
  deriving DecidableEq, Repr

/-- The text of a refusal. -/
def CryptoError.message : CryptoError → String
  | .invalidKeyLength => "Invalid key length"
  | .invalidLength => "Invalid input length"
  | .integrityCheckFailed => "Integrity check failed"
  | .invalidPublicKey => "Invalid public key"
  | .notInitialized => "Not initialized"

end SecureShell

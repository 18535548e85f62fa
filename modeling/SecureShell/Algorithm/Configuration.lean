import SecureShell.Algorithm.Discovery

/-!
# Configurations

What an operator can ask for: extensions and another default in each category, further formats of
public keys, and the names of private key formats, which are passed on as they are.
-/

namespace SecureShell

/-- The configuration of one category. -/
structure CategoryConfiguration where
  /-- The extensions, in the order in which they are installed. -/
  extensions : List Extension := []
  /-- The default, or else the first built-in algorithm. -/
  defaultName : Option String := none
  deriving DecidableEq, Repr

/-- A configuration of all algorithms. -/
structure Configuration where
  /-- Key exchange methods. -/
  kex : CategoryConfiguration := {}
  /-- Public key algorithms. -/
  publicKey : CategoryConfiguration := {}
  /-- Encryption algorithms. -/
  cipher : CategoryConfiguration := {}
  /-- Message authentication codes. -/
  mac : CategoryConfiguration := {}
  /-- Compression algorithms. -/
  compression : CategoryConfiguration := {}
  /-- The catalog identifiers of further public key formats. -/
  keyFormats : List String := []
  /-- The default public key format, or else the built-in one. -/
  defaultKeyFormat : Option String := none
  /-- The names of private key formats. -/
  privateFormats : List String := []
  /-- The default private key format, or else the first one. -/
  defaultPrivateFormat : Option String := none
  deriving DecidableEq, Repr

/-- The configuration of a category. -/
def Configuration.category (c : Configuration) : Category → CategoryConfiguration
  | .kex => c.kex
  | .publicKey => c.publicKey
  | .cipher => c.cipher
  | .mac => c.mac
  | .compression => c.compression

end SecureShell

/-!
# Categories of algorithms

The five families of algorithms that two sides negotiate.
-/

namespace SecureShell

/-- A family of algorithms. -/
inductive Category where
  /-- Key exchange methods. -/
  | kex
  /-- Public key algorithms of hosts. -/
  | publicKey
  /-- Encryption algorithms. -/
  | cipher
  /-- Message authentication codes. -/
  | mac
  /-- Compression algorithms. -/
  | compression
  deriving DecidableEq, Repr

namespace Category

/-- All categories. -/
def all : List Category := [.kex, .publicKey, .cipher, .mac, .compression]

/-- What a category is called in reports. -/
def label : Category → String
  | .kex => "key-exchange"
  | .publicKey => "public-key"
  | .cipher => "cipher"
  | .mac => "mac"
  | .compression => "compression"

/-- What a category is called where a registry is shown. -/
def title : Category → String
  | .kex => "Kex"
  | .publicKey => "PublicKey"
  | .cipher => "Cipher"
  | .mac => "Mac"
  | .compression => "Compression"

end Category

end SecureShell

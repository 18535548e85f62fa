import SecureShell.Algorithm.Catalog
import SecureShell.Algorithm.Configuration

/-!
# Suites

All algorithms of one side: a registry for each category, the public key formats and the names of
the private key formats. A suite is configured in two stages. First the extensions are discovered,
which may leave some out but never fails; then the defaults are moved, and the first one that is
not registered makes the whole configuration fail.
-/

namespace SecureShell

variable {σ : Type}

/-- The algorithms of one side. -/
structure Suite (σ : Type) where
  /-- Key exchange methods. -/
  kex : Registry σ KeyExchange
  /-- Public key algorithms. -/
  publicKey : Registry σ Verifier
  /-- Encryption algorithms. -/
  cipher : Registry σ CipherContext
  /-- Message authentication codes. -/
  mac : Registry σ MacContext
  /-- Compression algorithms. -/
  compression : Registry σ Compression
  /-- Public key formats. -/
  keyFormat : Registry σ KeyFormat
  /-- The names of private key formats. -/
  privateFormats : List String
  /-- The default private key format, if there are any. -/
  defaultPrivateFormat : Option String

namespace Suite

/-- The built-in algorithms. -/
def builtin [Entropy σ] : Suite σ :=
  ⟨.builtinKex, .builtinPublicKey, .builtinCipher, .builtinMac, .builtinCompression,
    .builtinKeyFormat, [], none⟩

/-! ### Views by category -/

/-- The names of a category, in the order of registration. -/
def names (x : Suite σ) : Category → List String
  | .kex => x.kex.names
  | .publicKey => x.publicKey.names
  | .cipher => x.cipher.names
  | .mac => x.mac.names
  | .compression => x.compression.names

/-- The default of a category. -/
def defaultName (x : Suite σ) : Category → String
  | .kex => x.kex.defaultName
  | .publicKey => x.publicKey.defaultName
  | .cipher => x.cipher.defaultName
  | .mac => x.mac.defaultName
  | .compression => x.compression.defaultName

/-- Moves the default of a category to another registered name. -/
def setDefault (x : Suite σ) (category : Category) (name : String) :
    Except AlgorithmError (Suite σ) :=
  match category with
  | .kex => do return { x with kex := ← x.kex.setDefault name }
  | .publicKey => do return { x with publicKey := ← x.publicKey.setDefault name }
  | .cipher => do return { x with cipher := ← x.cipher.setDefault name }
  | .mac => do return { x with mac := ← x.mac.setDefault name }
  | .compression => do return { x with compression := ← x.compression.setDefault name }

/-! ### Discovery -/

/-- Installs one public key format under the name that it gives itself. -/
def installFormat (table : Table σ KeyFormat) (p : Progress σ (Registry σ KeyFormat))
    (implementation : String) : Progress σ (Registry σ KeyFormat) :=
  match Roster.get? table implementation with
  | none => { p with log := p.log ++ [.formatMissing implementation] }
  | some factory =>
    match factory p.state with
    | (.error error, s) => ⟨p.value, s, p.log ++ [.formatSkipped implementation error]⟩
    | (.ok format, s) =>
      match p.value.register format.name (some factory) with
      | (true, r) => ⟨r, s, p.log ++ [.formatInstalled format.name]⟩
      | (false, r) => ⟨r, s, p.log ++ Registry.registerReports false r.category format.name⟩

/-- Installs public key formats in order. -/
def discoverFormats (table : Table σ KeyFormat) (implementations : List String)
    (p : Progress σ (Registry σ KeyFormat)) : Progress σ (Registry σ KeyFormat) :=
  implementations.foldl (installFormat table) p

/-- The built-in algorithms with the extensions of a configuration, category by category. The
defaults are those of the built-in algorithms. -/
def discover [Entropy σ] (config : Configuration) (catalog : Catalog σ) (s : σ) :
    Progress σ (Suite σ) :=
  let base : Suite σ := builtin
  let kex := Registry.discover catalog.kex config.kex.extensions ⟨base.kex, s, []⟩
  let publicKey := Registry.discover catalog.publicKey config.publicKey.extensions
    ⟨base.publicKey, kex.state, kex.log⟩
  let cipher := Registry.discover catalog.cipher config.cipher.extensions
    ⟨base.cipher, publicKey.state, publicKey.log⟩
  let mac := Registry.discover catalog.mac config.mac.extensions
    ⟨base.mac, cipher.state, cipher.log⟩
  let compression := Registry.discover catalog.compression config.compression.extensions
    ⟨base.compression, mac.state, mac.log⟩
  let keyFormat := discoverFormats catalog.keyFormat config.keyFormats
    ⟨base.keyFormat, compression.state, compression.log⟩
  { value :=
      ⟨kex.value, publicKey.value, cipher.value, mac.value, compression.value, keyFormat.value,
        [], none⟩
    state := keyFormat.state
    log := keyFormat.log }

/-! ### Defaults -/

/-- Moves the default of a registry if the configuration of its category asks for it. -/
def applyDefault {α : Type} (config : CategoryConfiguration) (r : Registry σ α) :
    Attempt AlgorithmError AlgorithmReport (Registry σ α) :=
  match config.defaultName with
  | none => pure r
  | some name => do
    let r ← .quiet (r.setDefault name)
    .report (.defaulted r.category name)
    return r

/-- Moves the default public key format if the configuration asks for it. -/
def applyFormatDefault (config : Configuration) (r : Registry σ KeyFormat) :
    Except AlgorithmError (Registry σ KeyFormat) :=
  match config.defaultKeyFormat with
  | none => .ok r
  | some name => r.setDefault name

/-- The default private key format: the one that the configuration asks for, which has to be
listed, or else the first one. -/
def privateDefault (config : Configuration) : Except AlgorithmError (Option String) :=
  match config.defaultPrivateFormat with
  | none => .ok config.privateFormats.head?
  | some name =>
    if name ∈ config.privateFormats then .ok (some name) else .error (.unknown name)

/-- Moves all defaults that a configuration asks for, and takes over its private key formats. -/
def applyDefaults (config : Configuration) (x : Suite σ) :
    Attempt AlgorithmError AlgorithmReport (Suite σ) := do
  let kex ← applyDefault config.kex x.kex
  let publicKey ← applyDefault config.publicKey x.publicKey
  let cipher ← applyDefault config.cipher x.cipher
  let mac ← applyDefault config.mac x.mac
  let compression ← applyDefault config.compression x.compression
  let keyFormat ← .quiet (applyFormatDefault config x.keyFormat)
  let defaultPrivateFormat ← .quiet (privateDefault config)
  return ⟨kex, publicKey, cipher, mac, compression, keyFormat, config.privateFormats,
    defaultPrivateFormat⟩

/-- The suite of a configuration and a catalog, with the state after all factories that have
run. -/
def configure [Entropy σ] (config : Configuration) (catalog : Catalog σ) (s : σ) :
    Attempt AlgorithmError AlgorithmReport (Suite σ) × σ :=
  let p := discover config catalog s
  let a := applyDefaults config p.value
  (⟨a.result, p.log ++ a.log⟩, p.state)

end Suite

end SecureShell

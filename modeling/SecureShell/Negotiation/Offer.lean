import SecureShell.Algorithm.Suite
import SecureShell.Negotiation.Choice
import SecureShell.Negotiation.KexInit

/-!
# Offers

A side offers all it supports, with the algorithm that it prefers in front of each list. The eight
lists of algorithms of the two offers decide what is used.
-/

namespace SecureShell

/-- The preferred algorithm of each list. A name that is not supported has no effect. -/
structure Preferences where
  /-- Key exchange method. -/
  kex : String
  /-- Host key algorithm. -/
  hostKey : String
  /-- Encryption algorithms. -/
  cipher : Duplex String
  /-- Message authentication codes. -/
  mac : Duplex String
  /-- Compression algorithms. -/
  compression : Duplex String
  deriving DecidableEq, Repr

namespace Preferences

/-- Prefers nothing. -/
def empty : Preferences := ⟨"", "", ⟨"", ""⟩, ⟨"", ""⟩, ⟨"", ""⟩⟩

/-- Prefers the defaults of a suite, in both directions. -/
def ofDefaults {σ : Type} (x : Suite σ) : Preferences :=
  let both (name : String) : Duplex String := ⟨name, name⟩
  ⟨x.kex.defaultName, x.publicKey.defaultName, both x.cipher.defaultName, both x.mac.defaultName,
    both x.compression.defaultName⟩

/-- The preferred names, in the order of the lists of a message. -/
def toList (p : Preferences) : List String :=
  [p.kex, p.hostKey, p.cipher.clientToServer, p.cipher.serverToClient, p.mac.clientToServer,
    p.mac.serverToClient, p.compression.clientToServer, p.compression.serverToClient]

end Preferences

/-- A cookie of random bytes. -/
def Cookie.random {σ : Type} [Entropy σ] (s : σ) : Cookie × σ :=
  (⟨(Entropy.draw 16 s).1, Entropy.length_draw 16 s⟩, (Entropy.draw 16 s).2)

namespace KexInit

/-- Both directions of a list of names, each with its preferred name in front. -/
def bothWays (names : List String) (preferred : Duplex String) : Duplex (List String) :=
  ⟨moveToFront names preferred.clientToServer, moveToFront names preferred.serverToClient⟩

/-- The message that offers a suite. It names no languages and guesses no packet. -/
def offer {σ : Type} (x : Suite σ) (p : Preferences) (cookie : Cookie) : KexInit where
  cookie := cookie
  kex := moveToFront x.kex.names p.kex
  hostKey := moveToFront x.publicKey.names p.hostKey
  cipher := bothWays x.cipher.names p.cipher
  mac := bothWays x.mac.names p.mac
  compression := bothWays x.compression.names p.compression
  language := ⟨[], []⟩
  firstPacketFollows := false

/-- Offers other host key algorithms, the default of a registry in front. -/
def setHostKeys {σ α : Type} (m : KexInit) (names : List String) (r : Registry σ α) : KexInit :=
  { m with hostKey := moveToFront names r.defaultName }

/-- The eight lists of algorithms of a message. -/
def algorithmLists (m : KexInit) : List (List String) := m.lists.take 8

/-- What a client and a server agree on, list by list. -/
def agreement (client server : KexInit) : List (Option String) :=
  List.zipWith commonAlgorithm client.algorithmLists server.algorithmLists

end KexInit

end SecureShell

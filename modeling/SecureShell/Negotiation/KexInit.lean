import SecureShell.Negotiation.Cookie
import SecureShell.Text.Quoted
import SecureShell.Wire.Message

/-!
# The negotiation message

Each side opens a connection with what it supports: a cookie, ten lists of names in order of
preference, and whether a guessed packet follows. This module holds the message, its payload and
the summary that is shown of it.
-/

namespace SecureShell

open Wire

/-- One value for each direction of a connection. -/
structure Duplex (α : Type) where
  /-- From the client to the server. -/
  clientToServer : α
  /-- From the server to the client. -/
  serverToClient : α
  deriving DecidableEq, Repr

/-- What a side supports, in order of preference. -/
structure KexInit where
  /-- The random bytes of the side. -/
  cookie : Cookie
  /-- Key exchange methods. -/
  kex : List String
  /-- Host key algorithms. -/
  hostKey : List String
  /-- Encryption algorithms. -/
  cipher : Duplex (List String)
  /-- Message authentication codes. -/
  mac : Duplex (List String)
  /-- Compression algorithms. -/
  compression : Duplex (List String)
  /-- Languages. -/
  language : Duplex (List String)
  /-- Whether the side has already sent a packet on a guess. -/
  firstPacketFollows : Bool
  deriving DecidableEq

/-- Why a negotiation message could not be written or read. -/
inductive KexInitError where
  /-- The message has no payload, or the payload no message. -/
  | invalidMessage (cause : CodecError)
  deriving DecidableEq, Repr

/-- The text of a negotiation message error. -/
def KexInitError.message : KexInitError → String
  | .invalidMessage cause => "Invalid KEXINIT message: " ++ cause.message

namespace KexInit

/-- The ten lists, in the order in which they travel. -/
def lists (m : KexInit) : List (List String) :=
  [m.kex, m.hostKey, m.cipher.clientToServer, m.cipher.serverToClient, m.mac.clientToServer,
    m.mac.serverToClient, m.compression.clientToServer, m.compression.serverToClient,
    m.language.clientToServer, m.language.serverToClient]

/-! ### On the wire -/

instance : Message KexInit := ⟨20⟩

/-- The emissions of several name lists, one after the other. -/
def emitLists (ls : List (List String)) : Emission :=
  ls.foldr (fun l rest ↦ NameList.emission l ++ rest) Emission.empty

/-- The four bytes at the end are reserved and written as zero. -/
instance : Writable KexInit :=
  ⟨fun m ↦ emission m.cookie ++ emitLists m.lists ++ Emission.flag m.firstPacketFollows ++
    Emission.word 0⟩

/-- One name list for each direction. -/
def readDuplex : Reader (Duplex (List String)) := do
  let clientToServer ← Reader.nameList
  let serverToClient ← Reader.nameList
  return ⟨clientToServer, serverToClient⟩

/-- The four bytes at the end are reserved and may be anything. -/
instance : Readable KexInit :=
  ⟨do
    let cookie ← reader
    let kex ← Reader.nameList
    let hostKey ← Reader.nameList
    let cipher ← readDuplex
    let mac ← readDuplex
    let compression ← readDuplex
    let language ← readDuplex
    let firstPacketFollows ← Reader.flag
    let _ ← Reader.word
    return ⟨cookie, kex, hostKey, cipher, mac, compression, language, firstPacketFollows⟩⟩

/-- The payload of a message. -/
def toBytes (m : KexInit) : Except KexInitError Bytes :=
  (encodeMessage m).mapError .invalidMessage

/-- The message of a payload. -/
def ofBytes (payload : Bytes) : Except KexInitError KexInit :=
  (decodeMessage payload).mapError .invalidMessage

/-! ### Summary -/

/-- What the ten lists are called. -/
def labels : List String :=
  ["kex", "server host key", "encryption c2s", "encryption s2c", "mac c2s", "mac s2c",
    "compression c2s", "compression s2c", "languages c2s", "languages s2c"]

/-- The lines that are shown of a message. -/
def summaryLines (m : KexInit) : List String :=
  ("SSH_MSG_KEXINIT " ++ m.cookie.description) ::
    (labels.zipWith (fun label names ↦ "  " ++ label ++ ": " ++ NameList.join names) m.lists) ++
    ["  first kex packet follows: " ++ Text.truth m.firstPacketFollows]

/-- What is shown of a message: a line for the cookie, one for each list and one for the flag. -/
def summary (m : KexInit) : String := "\n".intercalate m.summaryLines

end KexInit

end SecureShell

import SecureShell.Bytes

/-!
# Emissions

What a value asks of an output: chunks in order, each of which is taken whole or not at all, and
whether the value goes through to its end or is refused after the chunks it has already given.
One description serves every output. What an output makes of a chunk is for the output to say: a
counter counts it, a buffer of fixed capacity writes it if it fits.
-/

namespace SecureShell.Wire

/-- A piece of output that is taken whole or not at all. -/
inductive Chunk where
  /-- A single byte. -/
  | byte (x : UInt8)
  /-- A 32 bit word. -/
  | word (x : UInt32)
  /-- A byte string as it is. -/
  | raw (b : Bytes)
  deriving DecidableEq, Repr

/-- The bytes of a chunk. A word has its most significant byte first. -/
def Chunk.bytes : Chunk → Bytes
  | byte x => [x]
  | word x => bigEndian 4 x.toNat
  | raw b => b

/-- The chunks that a value gives to an output, and whether the value was accepted to its end. -/
structure Emission where
  /-- The indivisible pieces, in order. -/
  chunks : List Chunk
  /-- Whether nothing was refused after the last chunk. -/
  complete : Bool
  deriving DecidableEq, Repr

namespace Emission

/-- The emission of nothing. -/
def empty : Emission := ⟨[], true⟩

/-- A value that cannot be written at all. -/
def refused : Emission := ⟨[], false⟩

/-- A byte string as it is. -/
def chunk (b : Bytes) : Emission := ⟨[.raw b], true⟩

/-- The second emission follows the first, unless the first was refused. -/
def append (a b : Emission) : Emission :=
  if a.complete then ⟨a.chunks ++ b.chunks, b.complete⟩ else a

instance : Append Emission := ⟨append⟩

/-- All bytes of an emission. -/
def bytes (e : Emission) : Bytes := e.chunks.flatMap Chunk.bytes

/-- The number of bytes of an emission. -/
def size (e : Emission) : Nat := e.bytes.length

/-! ### Primitive values -/

/-- A single byte. -/
def byte (x : UInt8) : Emission := ⟨[.byte x], true⟩

/-- A 32 bit word, most significant byte first. -/
def word (x : UInt32) : Emission := ⟨[.word x], true⟩

/-- A truth value, as the byte one or zero. -/
def flag (b : Bool) : Emission := byte (if b then 1 else 0)

/-- A length, as a 32 bit word. A length that needs more bits is refused. -/
def length (n : Nat) : Emission :=
  if n ≤ 0xffffffff then word (UInt32.ofNat n) else refused

/-- The UTF-8 bytes of a text, without its length. -/
def text (s : String) : Emission := chunk (utf8 s)

/-- A byte string after its length. -/
def framed (b : Bytes) : Emission := length b.length ++ chunk b

/-- A text after the length of its UTF-8 bytes. -/
def framedText (s : String) : Emission := framed (utf8 s)

end Emission

end SecureShell.Wire

import SecureShell.Wire.Buffer
import SecureShell.Wire.Reader

/-!
# Encoding and decoding values

A type is writable if its values have an emission and readable if it has a reader. `encode` counts
the bytes of a value in a first pass and writes them into a buffer of just that size in a second
one. `decode` reads a value that has to take up the whole input.
-/

namespace SecureShell.Wire

/-- Why a value has no encoding, or a byte string no value. -/
inductive CodecError where
  /-- The value cannot be written. -/
  | encodingFailed
  /-- The bytes are no encoding of a value of the type. -/
  | decodingFailed
  deriving DecidableEq, Repr

/-- The text of a codec error. -/
def CodecError.message : CodecError → String
  | .encodingFailed => "encoding failed"
  | .decodingFailed => "decoding failed"

/-- Types whose values can be written. -/
class Writable (α : Type) where
  /-- What a value asks of an output. -/
  emission : α → Emission

/-- Types whose values can be read. -/
class Readable (α : Type) where
  /-- The reader of a value. -/
  reader : Reader α

export Writable (emission)
export Readable (reader)

/-- The bytes of an emission, counted first and then written into a buffer of that size. -/
def Emission.toBytes (e : Emission) : Except CodecError Bytes :=
  match Counter.zero.emit e with
  | (_, false) => .error .encodingFailed
  | (counter, true) =>
    match (Buffer.ofMemory (List.replicate counter.count 0)).emit e with
    | (_, false) => .error .encodingFailed
    | (buffer, true) => .ok buffer.contents

/-- The encoding of a value. -/
def encode {α : Type} [Writable α] (a : α) : Except CodecError Bytes :=
  (emission a).toBytes

/-- The value that a byte string encodes. -/
def decode {α : Type} [Readable α] (input : Bytes) : Except CodecError α :=
  match (reader : Reader α).all? input with
  | some a => .ok a
  | none => .error .decodingFailed

/-! ### Units, words, texts, byte strings and pairs -/

instance : Writable Unit := ⟨fun _ ↦ Emission.empty⟩

instance : Readable Unit := ⟨pure ()⟩

instance : Writable UInt32 := ⟨Emission.word⟩

instance : Readable UInt32 := ⟨Reader.word⟩

instance : Writable String := ⟨Emission.framedText⟩

instance : Readable String := ⟨Reader.framedText⟩

instance : Readable Bytes := ⟨Reader.framed⟩

instance {α β : Type} [Writable α] [Writable β] : Writable (α × β) :=
  ⟨fun p ↦ emission p.1 ++ emission p.2⟩

instance {α β : Type} [Readable α] [Readable β] : Readable (α × β) :=
  ⟨do
    let a ← reader
    let b ← reader
    return (a, b)⟩

end SecureShell.Wire

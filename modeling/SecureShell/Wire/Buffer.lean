import SecureShell.Wire.Emission

/-!
# Outputs: a counter and a buffer of fixed capacity

Both take the same emissions, each in its own way. The counter knows how much a chunk is without
having its bytes, and never lacks room. The buffer writes the bytes of chunks until the first chunk
that does not fit and then stops, keeping the chunks before it.

Counts and positions are numbers without a bound. It is assumed that sizes have 64 bits and that the
sizes of all that is written to an output add up to less than `2 ^ 64`, so that no sum overflows.
-/

namespace SecureShell.Wire

/-- The number of bytes asked for so far. -/
structure Counter where
  /-- How many bytes have been counted. -/
  count : Nat
  deriving DecidableEq, Repr

namespace Counter

/-- A counter that has seen nothing. -/
def zero : Counter := ⟨0⟩

/-- Counts a chunk. -/
def put (c : Counter) : Chunk → Counter
  | .byte _ => ⟨c.count + 1⟩
  | .word _ => ⟨c.count + 4⟩
  | .raw b => ⟨c.count + b.length⟩

/-- Counts the chunks of an emission, and tells whether it was complete. -/
def emit (c : Counter) (e : Emission) : Counter × Bool :=
  (e.chunks.foldl put c, e.complete)

end Counter

/-- A buffer of fixed capacity: the bytes written so far, and those that nobody has touched yet. -/
structure Buffer where
  /-- The bytes before the position. -/
  written : Bytes
  /-- The bytes at and after the position, as they were at the start. -/
  untouched : Bytes
  deriving DecidableEq, Repr

namespace Buffer

/-- A buffer over a piece of memory of which nothing has been written yet. -/
def ofMemory (memory : Bytes) : Buffer := ⟨[], memory⟩

/-- How many bytes have been written. -/
def position (b : Buffer) : Nat := b.written.length

/-- The whole memory of a buffer. -/
def contents (b : Buffer) : Bytes := b.written ++ b.untouched

/-- Writes a byte if there is room for it. -/
def putByte? (b : Buffer) (x : UInt8) : Option Buffer :=
  match b.untouched with
  | [] => none
  | _ :: rest => some ⟨b.written ++ [x], rest⟩

/-- Writes a byte string if all of it fits. -/
def putBytes? (b : Buffer) (bytes : Bytes) : Option Buffer :=
  if bytes.length ≤ b.untouched.length then
    some ⟨b.written ++ bytes, b.untouched.drop bytes.length⟩
  else none

/-- Writes a chunk if it fits. -/
def put? (b : Buffer) : Chunk → Option Buffer
  | .byte x => b.putByte? x
  | .word x => b.putBytes? (bigEndian 4 x.toNat)
  | .raw bytes => b.putBytes? bytes

/-- Writes chunks until one does not fit, and tells whether all of them did. -/
def putAll (b : Buffer) : List Chunk → Buffer × Bool
  | [] => (b, true)
  | chunk :: chunks =>
    match b.put? chunk with
    | some b => b.putAll chunks
    | none => (b, false)

/-- Writes an emission, and tells whether it was complete and all of it fitted. -/
def emit (b : Buffer) (e : Emission) : Buffer × Bool :=
  let (b, fitted) := b.putAll e.chunks
  (b, fitted && e.complete)

end Buffer

end SecureShell.Wire

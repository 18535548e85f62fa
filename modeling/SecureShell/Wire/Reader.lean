import SecureShell.Wire.NameList

/-!
# Readers

A reader takes a value from the front of a byte string and leaves the rest. It may fail, and then
the rest says how much it had already consumed: a primitive reader that fails has consumed
nothing, a compound one keeps what its earlier parts took.
-/

namespace SecureShell.Wire

/-- A reader of values: the value, if there is one, and the bytes that are left. -/
def Reader (α : Type) : Type := Bytes → Option α × Bytes

namespace Reader

variable {α β : Type}

/-- Runs a reader on a byte string. -/
def run (r : Reader α) (input : Bytes) : Option α × Bytes := r input

instance : Monad Reader where
  pure a := fun input ↦ (some a, input)
  bind r f := fun input ↦
    match r input with
    | (some a, rest) => f a rest
    | (none, rest) => (none, rest)

/-- The reader that fails and consumes nothing. -/
def fail : Reader α := fun input ↦ (none, input)

/-- Succeeds with the given value if there is one, and consumes nothing. -/
def ofOption : Option α → Reader α
  | some a => pure a
  | none => fail

/-! ### Primitive readers -/

/-- Succeeds at the end of the input. -/
def atEnd : Reader Unit := fun input ↦ (if input.isEmpty then some () else none, input)

/-- The next byte. -/
def byte : Reader UInt8
  | [] => (none, [])
  | x :: rest => (some x, rest)

/-- The next `n` bytes, if there are that many. -/
def bytes (n : Nat) : Reader Bytes := fun input ↦
  if n ≤ input.length then (some (input.take n), input.drop n) else (none, input)

/-! ### Compound readers -/

/-- The next byte, which has to be the given one. A byte that is not is consumed all the same. -/
def expectByte (x : UInt8) : Reader Unit := do
  let y ← byte
  if y = x then pure () else fail

/-- A 32 bit word, most significant byte first. -/
def word : Reader UInt32 := do
  let b ← bytes 4
  return UInt32.ofNat (ofBigEndian b)

/-- A truth value: any byte but zero is true. -/
def flag : Reader Bool := do
  let x ← byte
  return x != 0

/-- A length, written as a 32 bit word. -/
def length : Reader Nat := do
  let n ← word
  return n.toNat

/-- A byte string after its length. -/
def framed : Reader Bytes := do
  let n ← length
  bytes n

/-- A text of `n` bytes. Bytes that are not UTF-8 are consumed and refused. -/
def text (n : Nat) : Reader String := do
  let b ← bytes n
  ofOption (ofUtf8? b)

/-- A text after the length of its UTF-8 bytes. -/
def framedText : Reader String := do
  let n ← length
  text n

/-- A list of names, see `NameList`. -/
def nameList : Reader (List String) := do
  let s ← framedText
  ofOption (NameList.parse? s)

/-- A text after its length, which has to be the given one. -/
def expectText (s : String) : Reader Unit := do
  let t ← framedText
  if t = s then pure () else fail

/-- The value that a reader takes from the whole of a byte string. -/
def all? (r : Reader α) (input : Bytes) : Option α :=
  ((do let a ← r; atEnd; return a : Reader α).run input).1

/-- A value that fills a byte string after its length. -/
def framedBy (r : Reader α) : Reader α := do
  let b ← framed
  ofOption (r.all? b)

end Reader

end SecureShell.Wire

/-!
# Byte strings

Bytes are `List UInt8`: lists are what proofs can take apart, and every format below is read and
written front to back. This module holds the integer encodings of both byte orders, the cutting of
a byte string into pieces, the UTF-8 bytes of a text, the exclusive or and the comparison of two
byte strings, and the states that random bytes are drawn from.
-/

namespace SecureShell

/-- A string of bytes. -/
abbrev Bytes := List UInt8

/-! ### Integers -/

/-- The `width` low bytes of a number, most significant first. -/
def bigEndian : Nat → Nat → Bytes
  | 0, _ => []
  | width + 1, value => bigEndian width (value / 256) ++ [UInt8.ofNat value]

/-- The number that a byte string spells, most significant byte first. -/
def ofBigEndian (bytes : Bytes) : Nat :=
  bytes.foldl (fun acc byte ↦ acc * 256 + byte.toNat) 0

/-- The `width` low bytes of a number, least significant first. -/
def littleEndian : Nat → Nat → Bytes
  | 0, _ => []
  | width + 1, value => UInt8.ofNat value :: littleEndian width (value / 256)

/-- The number that a byte string spells, least significant byte first. -/
def ofLittleEndian (bytes : Bytes) : Nat :=
  bytes.foldr (fun byte acc ↦ byte.toNat + 256 * acc) 0

theorem length_bigEndian (width value : Nat) : (bigEndian width value).length = width := by
  induction width generalizing value with
  | zero => rfl
  | succ width ih => simp [bigEndian, ih]

theorem length_littleEndian (width value : Nat) : (littleEndian width value).length = width := by
  induction width generalizing value with
  | zero => rfl
  | succ width ih => simp [littleEndian, ih]

/-! ### Pieces -/

/-- A byte string in pieces of `n` bytes, at most as many as `count`. -/
def firstChunks (n : Nat) : Nat → Bytes → List Bytes
  | 0, _ => []
  | count + 1, b => if b.isEmpty then [] else b.take n :: firstChunks n count (b.drop n)

/-- A byte string in pieces of `n` bytes, the last of which may be shorter. There are no pieces of
no bytes. -/
def chunksOf (n : Nat) (b : Bytes) : List Bytes :=
  if n = 0 then [] else firstChunks n b.length b

/-- Pieces of one size make up a byte string of that many times the size. -/
theorem length_flatMap_const {α : Type} {n : Nat} (l : List α) {f : α → Bytes}
    (h : ∀ a, (f a).length = n) : (l.flatMap f).length = l.length * n := by
  induction l with
  | nil => simp
  | cons a l ih => simp [ih, h, Nat.add_mul, Nat.add_comm]

/-! ### Text -/

/-- The UTF-8 bytes of a text. -/
def utf8 (s : String) : Bytes :=
  s.toByteArray.data.toList

/-- The text whose UTF-8 bytes these are, if they are well formed. -/
def ofUtf8? (bytes : Bytes) : Option String :=
  String.fromUTF8? ⟨bytes.toArray⟩

theorem ofUtf8?_utf8 (s : String) : ofUtf8? (utf8 s) = some s := by
  simp [ofUtf8?, utf8, String.fromUTF8?, s.isValidUTF8, String.fromUTF8]

theorem utf8_of_ofUtf8? {bytes : Bytes} {s : String} (h : ofUtf8? bytes = some s) :
    utf8 s = bytes := by
  unfold ofUtf8? String.fromUTF8? at h
  split at h
  · cases h
    simp [utf8, String.fromUTF8]
  · cases h

/-! ### Exclusive or and comparison -/

/-- The bytes of `a` combined with those of `b` by exclusive or, as far as both reach. -/
def xorBytes (a b : Bytes) : Bytes :=
  List.zipWith (fun x y ↦ x ^^^ y) a b

/-- The bits in which two byte strings differ, collected over all their bytes. It is zero if they
agree as far as both reach, and every byte is looked at whatever the ones before it were. -/
def difference (a b : Bytes) : UInt8 :=
  (a.zip b).foldl (fun acc p ↦ acc ||| (p.1 ^^^ p.2)) 0

/-! ### Random bytes -/

/-- States from which random bytes can be drawn. Whether they can be predicted is a matter of the
state; the library only relies on getting as many as it asks for. -/
class Entropy (σ : Type) where
  /-- Draws a number of bytes. -/
  draw : Nat → σ → Bytes × σ
  /-- There are as many bytes as were asked for. -/
  length_draw : ∀ n s, (draw n s).1.length = n

end SecureShell

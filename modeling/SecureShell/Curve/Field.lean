import SecureShell.Bytes

/-!
# The field of the curves

Arithmetic modulo `2 ^ 255 - 19`, over which both the Montgomery curve of the key exchange and the
Edwards curve of the signatures are defined. Elements travel as 32 bytes, least significant first.
Both curves are the published ones, with their base points and orders; how many steps an operation
takes and whether that depends on secrets is no part of this.
-/

namespace SecureShell.Curve

/-- The binary digits of a number, most significant first. -/
def bitsOf (n : Nat) : List Bool :=
  (List.range (n.log2 + 1)).reverse.map n.testBit

/-- The size of the field. -/
def prime : Nat := Nat.pow 2 255 - 19

instance : @NeZero Nat Zero.ofOfNat0 prime := ⟨by decide⟩

/-- An element of the field. -/
abbrev Element := Fin prime

namespace Element

/-- The element with a given value modulo the size of the field. -/
def ofNat (n : Nat) : Element := Fin.ofNat prime n

/-- The element of a byte string. The topmost of the 256 bits is not looked at, and values at or
above the size of the field are reduced. -/
def ofBytes (b : Bytes) : Element := ofNat (ofLittleEndian b % Nat.pow 2 255)

/-- The 32 bytes of an element. -/
def toBytes (x : Element) : Bytes := littleEndian 32 x.val

/-- A power of an element, by repeated squaring. -/
def power (x : Element) (n : Nat) : Element :=
  (bitsOf n).foldl (fun acc bit ↦ if bit then acc * acc * x else acc * acc) 1

/-- The inverse of an element; zero is its own. -/
def inverse (x : Element) : Element := power x (prime - 2)

/-- A square root of minus one. -/
def rootOfMinusOne : Element := power 2 ((prime - 1) / 4)

/-- A square root of `u / v`, if there is one. -/
def sqrtRatio? (u v : Element) : Option Element :=
  let v₃ := v * v * v
  let root := u * v₃ * power (u * v₃ * v₃ * v) ((prime - 5) / 8)
  let check := v * root * root
  if check = u then some root
  else if check = -u then some (root * rootOfMinusOne)
  else none

end Element

end SecureShell.Curve

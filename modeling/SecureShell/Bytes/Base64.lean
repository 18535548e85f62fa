import SecureShell.Bytes

/-!
# Base64

The published encoding in its standard alphabet. Three bytes are four digits of six bits each. A
last group of one or two bytes has two or three digits, and a writer may fill it up with padding
signs. A reader takes them or leaves them, but refuses more of them than the group has room for, and
it refuses digits whose unused bits are not zero. Blanks and line breaks are not skipped.

The other modules rely on two laws: what is written is read (`decode?_encode`), and there are no
blanks in what is written (`isWord_encode`).
-/

namespace SecureShell.Base64

/-- The digit of a six bit value. -/
def digit (n : Nat) : Char :=
  if n < 26 then Char.ofNat (65 + n)
  else if n < 52 then Char.ofNat (71 + n)
  else if n < 62 then Char.ofNat (n - 4)
  else if n = 62 then '+'
  else '/'

/-- The value of a digit. -/
def value? (c : Char) : Option Nat :=
  if 'A' ≤ c ∧ c ≤ 'Z' then some (c.toNat - 65)
  else if 'a' ≤ c ∧ c ≤ 'z' then some (c.toNat - 71)
  else if '0' ≤ c ∧ c ≤ '9' then some (c.toNat + 4)
  else if c = '+' then some 62
  else if c = '/' then some 63
  else none

/-- The digits of a byte string, without padding. -/
def digits : Bytes → List Char
  | [] => []
  | [x] => [digit (x.toNat / 4), digit (x.toNat % 4 * 16)]
  | [x, y] =>
    [digit (x.toNat / 4), digit (x.toNat % 4 * 16 + y.toNat / 16), digit (y.toNat % 16 * 4)]
  | x :: y :: z :: rest =>
    digit (x.toNat / 4) :: digit (x.toNat % 4 * 16 + y.toNat / 16) ::
      digit (y.toNat % 16 * 4 + z.toNat / 64) :: digit (z.toNat % 64) :: digits rest

/-- The number of padding signs after the digits of `n` bytes. -/
def padding (n : Nat) : Nat := (3 - n % 3) % 3

/-- The text of a byte string, without padding. -/
def encodeUnpadded (b : Bytes) : String := String.ofList (digits b)

/-- The text of a byte string, filled up to whole groups. -/
def encode (b : Bytes) : String :=
  String.ofList (digits b ++ List.replicate (padding b.length) '=')

/-- The bytes of a list of six bit values. A last value with bits that belong to no byte has to be
zero in them, and a single last value is refused. -/
def ofValues? : List Nat → Option Bytes
  | [] => some []
  | [_] => none
  | [a, b] => if b % 16 = 0 then some [UInt8.ofNat (a * 4 + b / 16)] else none
  | [a, b, c] =>
    if c % 4 = 0 then some [UInt8.ofNat (a * 4 + b / 16), UInt8.ofNat (b % 16 * 16 + c / 4)]
    else none
  | a :: b :: c :: d :: rest => do
    let bytes ← ofValues? rest
    return UInt8.ofNat (a * 4 + b / 16) :: UInt8.ofNat (b % 16 * 16 + c / 4) ::
      UInt8.ofNat (c % 4 * 64 + d) :: bytes

/-- The byte string of a text. Padding signs may end it, at most as many as complete the last
group. -/
def decode? (s : String) : Option Bytes := do
  let cs := s.toList
  let body := cs.takeWhile (· != '=')
  let signs := cs.dropWhile (· != '=')
  if signs.all (· == '=') && signs.length ≤ (4 - body.length % 4) % 4 then
    ofValues? (← body.mapM value?)
  else none

end SecureShell.Base64

import SecureShell.Bytes

/-!
# Hexadecimal text

Two lower-case digits for each byte, the form in which cookies are shown. A reader takes no other
digits and no single one.
-/

namespace SecureShell

/-- The lower-case hexadecimal digit of a number below sixteen. -/
def hexDigit (n : Nat) : Char :=
  Char.ofNat (if n < 10 then 48 + n else 87 + n)

/-- The two hexadecimal digits of a byte. -/
def hexByte (byte : UInt8) : List Char :=
  [hexDigit (byte.toNat / 16), hexDigit (byte.toNat % 16)]

/-- The hexadecimal text of a byte string, two digits for each byte. -/
def hex (bytes : Bytes) : String :=
  String.ofList (bytes.flatMap hexByte)

/-- The number of a lower-case hexadecimal digit. -/
def hexValue? (c : Char) : Option Nat :=
  if '0' ≤ c ∧ c ≤ '9' then some (c.toNat - 48)
  else if 'a' ≤ c ∧ c ≤ 'f' then some (c.toNat - 87)
  else none

/-- The bytes of a list of hexadecimal digits. -/
def ofHexDigits? : List Char → Option Bytes
  | [] => some []
  | [_] => none
  | a :: b :: rest => do
    let x ← hexValue? a
    let y ← hexValue? b
    let bytes ← ofHexDigits? rest
    return UInt8.ofNat (16 * x + y) :: bytes

/-- The bytes of a hexadecimal text. -/
def ofHex? (s : String) : Option Bytes := ofHexDigits? s.toList

end SecureShell

import SecureShell.Text.Visible
import SecureShell.Bytes.Hex

/-!
# Quoted text

A text between double quotes, in which nothing is invisible: quotes and backslashes are escaped,
the common controls have escapes of one letter, and all other characters that are not visible by
themselves are given by their code point.
-/

namespace SecureShell.Text

/-- The hexadecimal digits of a number, without leading zeros. -/
def codePoint (n : Nat) : List Char := Nat.toDigits 16 n

/-- The form that a character takes between quotes. -/
def quotedChar (c : Char) : List Char :=
  if c = '"' then ['\\', '"']
  else if c = '\\' then ['\\', '\\']
  else if c = '\t' then ['\\', 't']
  else if c = '\n' then ['\\', 'n']
  else if c = '\r' then ['\\', 'r']
  else if c.toNat = 0 then ['\\', '0']
  else if isVisible c then [c]
  else ['\\', 'u', '\x7b'] ++ codePoint c.toNat ++ ['\x7d']

/-- A text between double quotes. -/
def quoted (s : String) : String :=
  String.ofList ('"' :: s.toList.flatMap quotedChar ++ ['"'])

/-- Quoted texts between brackets. -/
def quotedList (l : List String) : String :=
  "[" ++ ", ".intercalate (l.map quoted) ++ "]"

/-- A name and its labelled fields between braces. -/
def labelled (name : String) (fields : List (String × String)) : String :=
  name ++ " \x7b " ++ ", ".intercalate (fields.map fun f ↦ f.1 ++ ": " ++ f.2) ++ " \x7d"

/-- The word for a truth value. -/
def truth (b : Bool) : String := if b then "true" else "false"

end SecureShell.Text

/-!
# Blanks

The characters of Unicode white space, and the operations of line formats on them: removing blanks
from both ends of a text and splitting off its first word.
-/

namespace SecureShell.Text

/-- The code points of Unicode white space, as ranges. -/
def blankRanges : List (Nat × Nat) :=
  [(0x09, 0x0d), (0x20, 0x20), (0x85, 0x85), (0xa0, 0xa0), (0x1680, 0x1680), (0x2000, 0x200a),
    (0x2028, 0x2029), (0x202f, 0x202f), (0x205f, 0x205f), (0x3000, 0x3000)]

/-- Whether a character is white space. -/
def isBlank (c : Char) : Bool :=
  blankRanges.any fun r ↦ r.1 ≤ c.toNat && c.toNat ≤ r.2

/-- The characters without blanks at either end. -/
def trim (cs : List Char) : List Char :=
  (((cs.dropWhile isBlank).reverse).dropWhile isBlank).reverse

/-- The characters before the first blank and, if there is one, those after it. -/
def splitBlank : List Char → List Char × Option (List Char)
  | [] => ([], none)
  | c :: rest =>
    if isBlank c then ([], some rest)
    else
      let (word, tail) := splitBlank rest
      (c :: word, tail)

end SecureShell.Text

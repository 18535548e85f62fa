import SecureShell.Wire.Emission

/-!
# Name lists

A list of names travels as one text, the names joined by commas. The empty list is the empty text,
so no name may be empty, and no name may hold a comma.
-/

namespace SecureShell.Wire.NameList

/-- A name that survives joining: it is not empty and holds no comma. -/
def isListable (name : String) : Bool :=
  !name.isEmpty && name.toList.all (· != ',')

/-- The names joined by commas. -/
def join (names : List String) : String :=
  ",".intercalate names

/-- The pieces of a text between commas; one more than there are commas. -/
def splitCommas : List Char → List (List Char)
  | [] => [[]]
  | c :: rest =>
    if c = ',' then [] :: splitCommas rest
    else
      match splitCommas rest with
      | [] => [[c]]
      | piece :: pieces => (c :: piece) :: pieces

/-- The names of a joined text. The empty text is the empty list; an empty name is refused. -/
def parse? (s : String) : Option (List String) :=
  if s.isEmpty then some []
  else
    let names := (splitCommas s.toList).map String.ofList
    if names.any String.isEmpty then none else some names

/-- The names after the first, each behind a comma of its own. -/
def emitRest (names : List String) : Emission :=
  names.foldr (fun name rest ↦ Emission.byte 0x2c ++ Emission.text name ++ rest) Emission.empty

/-- The names with commas between them, each name and each comma a chunk of its own. -/
def emitNames : List String → Emission
  | [] => Emission.empty
  | name :: names => Emission.text name ++ emitRest names

/-- The number of bytes of the joined names, known before they are joined: one for each comma
between two names, and those of the names. The sum is one of sizes that are assumed to stay below
`2 ^ 64`. -/
def joinedSize (names : List String) : Nat :=
  (names.length - 1) + names.foldr (fun name size ↦ (utf8 name).length + size) 0

/-- A name list after its length. All names are looked at before the length is written. -/
def emission (names : List String) : Emission :=
  if names.all isListable then Emission.length (joinedSize names) ++ emitNames names
  else Emission.refused

end SecureShell.Wire.NameList

/-!
# Choosing algorithms

How one side orders what it supports, and what two sides agree on: the first algorithm of the
client that the server supports too.
-/

namespace SecureShell

/-- Names that are being put into an order of preference. -/
structure Ranking where
  /-- The preferred name, once it has been met. -/
  front : List String
  /-- All other names that have been met. -/
  rest : List String
  deriving DecidableEq, Repr

namespace Ranking

/-- Nothing has been met yet. -/
def empty : Ranking := ⟨[], []⟩

/-- Places the next name. It goes in front if it is the preferred one and nothing is there yet, and
behind all others if not. -/
def place (preferred : String) (r : Ranking) (name : String) : Ranking :=
  if r.front.isEmpty && name == preferred then { r with front := r.front ++ [name] }
  else { r with rest := r.rest ++ [name] }

/-- The names in the order that they have got. -/
def names (r : Ranking) : List String := r.front ++ r.rest

end Ranking

/-- Moves the first occurrence of a preferred name to the front, in one pass over the names. All
other names keep their order, and without an occurrence the list stays as it is. -/
def moveToFront (names : List String) (preferred : String) : List String :=
  (names.foldl (Ranking.place preferred) .empty).names

/-- The first name of the client that is also one of the server. -/
def commonAlgorithm (client server : List String) : Option String :=
  client.find? fun name ↦ server.contains name

end SecureShell

import PaneCompletion.Text.Basic

/-!
# Tables in order of insertion

A table maps texts to values and remembers the order in which its keys first came. Writing a key
again changes its value and not its place.
-/

namespace PaneCompletion

/-- Keys with their values, in order of first insertion. -/
abbrev Table (α : Type) := List (Text × α)

namespace Table

variable {α : Type}

/-- The value of a key. -/
def get? (key : Text) : Table α → Option α
  | [] => none
  | (k, v) :: rest => if k = key then some v else get? key rest

/-- Write a key: in its old place, or at the end when it is new. -/
def put (key : Text) (value : α) : Table α → Table α
  | [] => [(key, value)]
  | (k, v) :: rest => if k = key then (key, value) :: rest else (k, v) :: put key value rest

/-- Write the pairs in order into an empty table. -/
def ofPairs (pairs : List (Text × α)) : Table α :=
  pairs.foldl (fun table pair => table.put pair.1 pair.2) []

/-- The keys in order. -/
def keys (table : Table α) : List Text := table.map (·.1)

/-- The values in order of their keys. -/
def values (table : Table α) : List α := table.map (·.2)

end Table

end PaneCompletion

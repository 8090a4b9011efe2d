/-!
Entries under keys, in the order in which the keys first came.
-/

namespace GraphQL

abbrev Entries (α : Type) := List (String × α)

namespace Entries

/-- Binds a key. A key that is already there keeps its place and takes the new value. -/
def put [DecidableEq κ] (key : κ) (value : α) : List (κ × α) → List (κ × α)
  | [] => [(key, value)]
  | (known, old) :: rest =>
      if known = key then (key, value) :: rest else (known, old) :: put key value rest

def ofList (pairs : List (String × α)) : Entries α :=
  pairs.foldl (fun entries (key, value) => put key value entries) []

def sortKeys (entries : Entries α) : Entries α :=
  entries.mergeSort fun a b => a.1 ≤ b.1

end Entries

end GraphQL

import GraphQL.Number.Shortest

/-!
JSON values. An object keeps its entries in order; a number is an integer or a double, as it
was written.
-/

namespace GraphQL

inductive Json where
  | null
  | bool (value : Bool)
  | int (value : Int)
  | float (value : Binary64)
  | string (value : String)
  | array (items : List Json)
  | object (entries : List (String × Json))
deriving Inhabited

namespace Json

def field? (key : String) : Json → Option Json
  | object entries => entries.lookup key
  | _ => none

def string? : Json → Option String
  | string value => some value
  | _ => none

mutual

/-- How deeply a value nests; a scalar counts as one. -/
def depth : Json → Nat
  | array items => depthItems items + 1
  | object entries => depthEntries entries + 1
  | _ => 1

def depthItems : List Json → Nat
  | [] => 0
  | item :: rest => max item.depth (depthItems rest)

def depthEntries : List (String × Json) → Nat
  | [] => 0
  | (_, value) :: rest => max value.depth (depthEntries rest)

end

end Json

end GraphQL

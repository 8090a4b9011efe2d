import GraphQL.Json.Decode
import GraphQL.Printer.Node

/-!
Printing a node that is given as JSON.
-/

namespace GraphQL

inductive PrintError where
  /-- A value without a known kind. -/
  | invalidNode (value : Json)
  | malformedNode (kind : Kind) (error : ShapeError)

namespace PrintError

def message? : PrintError → Option String
  | invalidNode value => some ("Invalid AST Node: " ++ value.inspect ++ ".")
  | malformedNode kind error =>
      error.message?.map fun inner => "Malformed " ++ kind.text ++ " node: " ++ inner

end PrintError

def Json.printNode (json : Json) : Except PrintError (List Char) :=
  match json.kind? with
  | none => .error (.invalidNode json)
  | some kind =>
      match Node.ofJson json with
      | .ok node => .ok node.print
      | .error error => .error (.malformedNode kind error)

end GraphQL

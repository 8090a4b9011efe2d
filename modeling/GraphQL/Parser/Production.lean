import GraphQL.Parser.Document
import GraphQL.Tree.Node

/-!
A parser may be asked for productions one after the other, in any order. It goes on from where
the last one stopped, also if that one failed.
-/

namespace GraphQL.Parser

inductive Production where
  | document
  | definition
  | operation
  | fragment
  | selectionSet
  | name
  | value (isConst : Bool)
  | typeRef
deriving DecidableEq, Repr

/-- The parser of a production, which may open `levels` nodes in one another. -/
def Production.parser (levels : Nat) : Production → Parser Node
  | document => Node.document <$> Parser.document levels
  | definition => Node.definition <$> Parser.definition levels
  | operation => (fun found => .definition (.operation found)) <$> Parser.operation levels
  | fragment => (fun found => .definition (.fragment found)) <$> Parser.fragment levels
  | selectionSet => Node.selectionSet <$> Parser.selectionSet levels
  | name => Node.name <$> Parser.name
  | value isConst => Node.value <$> Parser.value isConst levels
  | typeRef => Node.type <$> Parser.typeRef levels

namespace State

def ask (state : State) (production : Production) : Except SyntaxError Node × State :=
  match production.parser state.options.maxNestingDepth state with
  | .ok node after => (.ok node, after)
  | .error error after => (.error error, after)

def askAll (state : State) : List Production → List (Except SyntaxError Node) × State
  | [] => ([], state)
  | first :: rest =>
      let (answer, next) := state.ask first
      let (answers, last) := next.askAll rest
      (answer :: answers, last)

end State

end GraphQL.Parser

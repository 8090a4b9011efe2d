import GraphQL.Parser.Document

/-!
Productions with some of their parts, such as those that may be missing, as parsers of their own.
-/

namespace GraphQL.Parser

theorem if_bind {condition : Prop} [Decidable condition] (yes no : Parser α) (next : α → Parser β) :
    (if condition then yes else no) >>= next =
      if condition then yes >>= next else no >>= next := by
  split <;> rfl

/-- A part that stands wherever the current token is of a kind. -/
def optionalPart (kind : TokenKind) (part : Parser α) : Parser (Option α) := do
  if (← current).kind = kind then return some (← part) else return none

def fieldKey : Parser (Option Name × Name) := do
  let first ← name
  if ← accept (.punctuator .colon) then return (some first, ← name) else return (none, first)

def spreadBehind (levels : Nat) (start : Token) : Parser Selection := do
  let name ← fragmentName
  let directives ← directives false levels
  return .spread ⟨name, directives, ← span start⟩

def inlineBehind (set : Parser SelectionSet) (levels : Nat) (start : Token)
    (typeCondition : Option NamedType) : Parser Selection := do
  let directives ← directives false levels
  let selectionSet ← set
  return .inline ⟨typeCondition, directives, selectionSet, ← span start⟩

def fragmentVariables (levels : Nat) : Parser (List VariableDefinition) := do
  if ← allowsFragmentVariables then variableDefinitions levels else return []

theorem field_eq (set : Parser SelectionSet) (levels : Nat) :
    field set levels = (do
      let start ← current
      let key ← fieldKey
      let arguments ← arguments false levels
      let directives ← directives false levels
      let selectionSet ← optionalPart (.punctuator .braceOpen) set
      return ⟨key.1, key.2, arguments, directives, selectionSet, ← span start⟩) := by
  simp only [field, fieldKey, optionalPart, bind_assoc, pure_bind, if_bind]

theorem spreadOrInline_eq (set : Parser SelectionSet) (levels : Nat) :
    spreadOrInline set levels = (do
      let start ← current
      expect (.punctuator .ellipsis)
      if ← acceptKeyword "on" then inlineBehind set levels start (some (← namedType))
      else if (← current).kind = .name then spreadBehind levels start
      else inlineBehind set levels start none) := by
  refine bind_congr fun start => bind_congr fun _ => bind_congr fun conditioned => ?_
  cases conditioned
  · simp only [Bool.not_false, Bool.true_and, decide_eq_true_eq, Bool.false_eq_true, if_false,
      pure_bind]
    rfl
  · simp only [Bool.not_true, Bool.false_and, Bool.false_eq_true, if_false, if_true,
      pure_bind]
    rfl

theorem operation_eq (levels : Nat) :
    operation levels = (do
      let start ← current
      if start.kind = .punctuator .braceOpen then
        let selectionSet ← selectionSet levels
        return ⟨.query, none, [], [], selectionSet, ← span start⟩
      else
        let operation ← operationType
        let name ← optionalPart .name name
        let variableDefinitions ← variableDefinitions levels
        let directives ← directives false levels
        let selectionSet ← selectionSet levels
        return ⟨operation, name, variableDefinitions, directives, selectionSet, ← span start⟩) := by
  simp only [operation, optionalPart, bind_assoc, pure_bind, if_bind]

theorem fragment_eq (levels : Nat) :
    fragment levels = (do
      let start ← current
      expectKeyword "fragment"
      let name ← fragmentName
      let variableDefinitions ← fragmentVariables levels
      expectKeyword "on"
      let typeCondition ← namedType
      let directives ← directives false levels
      let selectionSet ← selectionSet levels
      return ⟨name, variableDefinitions, typeCondition, directives, selectionSet,
        ← span start⟩) := by
  simp only [fragment, fragmentVariables, bind_assoc, pure_bind, if_bind]

/-- The definition that a keyword tells. With a description it is one of the type system. -/
def definitionAt (levels : Nat) (described : Bool) (start keyword : Token) : Parser Definition :=
  match keyword.lexeme with
  | .name text =>
      match typeSystemDefinition? levels text with
      | some definition => definition
      | none =>
          if described then fail start .misplacedDescription
          else
            match text with
            | "query" | "mutation" | "subscription" => return .operation (← operation levels)
            | "fragment" => return .fragment (← fragment levels)
            | "extend" => extension levels
            | _ => fail keyword (.unexpected keyword.lexeme)
  | _ => fail keyword (.unexpected keyword.lexeme)

theorem definition_eq (levels : Nat) :
    definition levels = (do
      let start ← current
      if start.kind = .punctuator .braceOpen then return .operation (← operation levels)
      else
        let keyword ← if isDescription start then lookahead else pure start
        definitionAt levels (isDescription start) start keyword) := by
  simp only [definition]
  rfl

end GraphQL.Parser

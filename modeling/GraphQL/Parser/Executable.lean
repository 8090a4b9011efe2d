import GraphQL.Parser.Value
import GraphQL.Tree.Definition

/-!
Operations, fragments and the selections in them.
-/

namespace GraphQL.Parser

/-- A fragment's name; the word that introduces a type condition is none. -/
def fragmentName : Parser Name := do
  let token ← current
  if token.lexeme = .name "on" then fail token (.reservedFragmentName token.lexeme)
  else name

/-- A field. `set` parses the selections inside it. -/
def field (set : Parser SelectionSet) (levels : Nat) : Parser Field := do
  let start ← current
  let first ← name
  let (responseAlias, name) ←
    if ← accept (.punctuator .colon) then pure (some first, ← name) else pure (none, first)
  let arguments ← arguments false levels
  let directives ← directives false levels
  let selectionSet ←
    if (← current).kind = .punctuator .braceOpen then pure (some (← set)) else pure none
  return ⟨responseAlias, name, arguments, directives, selectionSet, ← span start⟩

def spreadOrInline (set : Parser SelectionSet) (levels : Nat) : Parser Selection := do
  let start ← current
  expect (.punctuator .ellipsis)
  let conditioned ← acceptKeyword "on"
  if !conditioned && (← current).kind = .name then
    let name ← fragmentName
    let directives ← directives false levels
    return .spread ⟨name, directives, ← span start⟩
  else
    let typeCondition ← if conditioned then pure (some (← namedType)) else pure none
    let directives ← directives false levels
    let selectionSet ← set
    return .inline ⟨typeCondition, directives, selectionSet, ← span start⟩

def selection (set : Parser SelectionSet) (levels : Nat) : Parser Selection := do
  if (← current).kind = .punctuator .ellipsis then spreadOrInline set levels
  else return .field (← field set levels)

/-- A selection set between its ends. `inner` parses the selections in it. -/
def selectionSetBody (inner : Parser Selection) : Parser SelectionSet := do
  let start ← current
  let selections ← many (.punctuator .braceOpen) inner (.punctuator .braceClose)
  return ⟨selections, ← span start⟩

def selectionSet : (levels : Nat) → Parser SelectionSet
  | 0 => tooDeep
  | levels + 1 => nested (selectionSetBody (selection (selectionSet levels) levels))

def variableDefinition (levels : Nat) : Parser VariableDefinition := do
  let start ← current
  let declared ← variableRef
  expect (.punctuator .colon)
  let type ← typeRef levels
  let defaultValue ← defaultValue levels
  let directives ← directives true levels
  return ⟨declared, type, defaultValue, directives, ← span start⟩

def variableDefinitions (levels : Nat) : Parser (List VariableDefinition) :=
  optionalMany (.punctuator .parenOpen) (variableDefinition levels) (.punctuator .parenClose)

def operationType : Parser OperationType := do
  let start ← current
  expect .name
  match OperationType.ofKeyword? start.text with
  | some operation => return operation
  | none => fail start (.unexpected start.lexeme)

def operation (levels : Nat) : Parser OperationDefinition := do
  let start ← current
  if start.kind = .punctuator .braceOpen then
    let selectionSet ← selectionSet levels
    return ⟨.query, none, [], [], selectionSet, ← span start⟩
  else
    let operation ← operationType
    let name ← if (← current).kind = .name then pure (some (← name)) else pure none
    let variableDefinitions ← variableDefinitions levels
    let directives ← directives false levels
    let selectionSet ← selectionSet levels
    return ⟨operation, name, variableDefinitions, directives, selectionSet, ← span start⟩

def allowsFragmentVariables : Parser Bool := fun state =>
  .ok state.options.fragmentVariables state

def fragment (levels : Nat) : Parser FragmentDefinition := do
  let start ← current
  expectKeyword "fragment"
  let name ← fragmentName
  let variableDefinitions ←
    if ← allowsFragmentVariables then variableDefinitions levels else pure []
  expectKeyword "on"
  let typeCondition ← namedType
  let directives ← directives false levels
  let selectionSet ← selectionSet levels
  return ⟨name, variableDefinitions, typeCondition, directives, selectionSet, ← span start⟩

end GraphQL.Parser

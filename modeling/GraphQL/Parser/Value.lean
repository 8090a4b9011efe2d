import GraphQL.Parser.Basic
import GraphQL.Tree.TypeRef

/-!
Names, values, directives and type references. Productions that nest take the number of
levels that may still open, on which their recursion runs; where none is left, a node that
opens a level is refused as it is by the count of open nodes.
-/

namespace GraphQL.Parser

def name : Parser Name := do
  let start ← current
  expect .name
  return ⟨start.text, ← span start⟩

def variableRef : Parser Variable := do
  let start ← current
  expect (.punctuator .dollar)
  return ⟨← name, ← span start⟩

/-- Either form of string; the caller has seen that one stands here. -/
def stringValue : Parser StringValue := do
  let start ← current
  advance
  return ⟨start.text, start.kind = .blockString, ← span start⟩

/-- Refuses the variable that begins at the current token, or what stands in its place. -/
def refuseVariable : Parser Value := do
  let start ← current
  expect (.punctuator .dollar)
  match (← current).lexeme with
  | .name text => fail start (.constVariable text)
  | _ => fail start (.unexpected start.lexeme)

def namedValue (text : String) (loc : Option Location) : Value :=
  match text with
  | "true" => .boolean true loc
  | "false" => .boolean false loc
  | "null" => .null loc
  | _ => .enum text loc

def objectField (value : Parser Value) : Parser ObjectField := do
  let start ← current
  let name ← name
  expect (.punctuator .colon)
  return ⟨name, ← value, ← span start⟩

/-- A value between its ends. `inner` parses the values inside it. -/
def valueBody (isConst : Bool) (inner : Parser Value) : Parser Value := do
  let start ← current
  match start.lexeme with
  | .punctuator .bracketOpen =>
      let items ← any (.punctuator .bracketOpen) inner (.punctuator .bracketClose)
      return .list items (← span start)
  | .punctuator .braceOpen =>
      let fields ← any (.punctuator .braceOpen) (objectField inner) (.punctuator .braceClose)
      return .object fields (← span start)
  | .int text =>
      advance
      return .int text (← span start)
  | .float text =>
      advance
      return .float text (← span start)
  | .string _ | .blockString _ => return .string (← stringValue)
  | .name text =>
      advance
      return namedValue text (← span start)
  | .punctuator .dollar => if isConst then refuseVariable else return .var (← variableRef)
  | _ => unexpected

def value (isConst : Bool) : (levels : Nat) → Parser Value
  | 0 => tooDeep
  | levels + 1 => nested (valueBody isConst (value isConst levels))

def argument (isConst : Bool) (levels : Nat) : Parser Argument := do
  let start ← current
  let name ← name
  expect (.punctuator .colon)
  return ⟨name, ← value isConst levels, ← span start⟩

def arguments (isConst : Bool) (levels : Nat) : Parser (List Argument) :=
  optionalMany (.punctuator .parenOpen) (argument isConst levels) (.punctuator .parenClose)

def directive (isConst : Bool) (levels : Nat) : Parser Directive := do
  let start ← current
  expect (.punctuator .atSign)
  let name ← name
  return ⟨name, ← arguments isConst levels, ← span start⟩

def directives (isConst : Bool) (levels : Nat) : Parser (List Directive) := do
  whileAt (.punctuator .atSign) (directive isConst levels) (← rounds)

def namedType : Parser NamedType := do
  let start ← current
  return ⟨← name, ← span start⟩

def typeRefBody (inner : Parser TypeRef) : Parser TypeRef := do
  let start ← current
  let type ←
    if ← accept (.punctuator .bracketOpen) then
      let item ← inner
      expect (.punctuator .bracketClose)
      pure (NullableType.list item (← span start))
    else pure (NullableType.named (← namedType))
  if ← accept (.punctuator .bang) then return .nonNull type (← span start)
  else return .nullable type

def typeRef : (levels : Nat) → Parser TypeRef
  | 0 => tooDeep
  | levels + 1 => nested (typeRefBody (typeRef levels))

def defaultValue (levels : Nat) : Parser (Option Value) := do
  if ← accept (.punctuator .equals) then return some (← value true levels) else return none

end GraphQL.Parser

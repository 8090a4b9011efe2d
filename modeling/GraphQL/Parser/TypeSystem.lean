import GraphQL.Parser.Executable
import GraphQL.Tree.DirectiveLocation

/-!
Definitions of the type system and their extensions. All values in them are constant.
-/

namespace GraphQL.Parser

def isDescription (token : Token) : Bool :=
  token.kind = .string || token.kind = .blockString

def description : Parser (Option StringValue) := do
  if isDescription (← current) then return some (← stringValue) else return none

def operationTypeDefinition : Parser OperationTypeDefinition := do
  let start ← current
  let operation ← operationType
  expect (.punctuator .colon)
  return ⟨operation, ← namedType, ← span start⟩

def schemaDefinition (levels : Nat) : Parser SchemaDefinition := do
  let start ← current
  let description ← description
  expectKeyword "schema"
  let directives ← directives true levels
  let operationTypes ← many (.punctuator .braceOpen) operationTypeDefinition
    (.punctuator .braceClose)
  return ⟨description, directives, operationTypes, ← span start⟩

def inputValueDefinition (levels : Nat) : Parser InputValueDefinition := do
  let start ← current
  let description ← description
  let name ← name
  expect (.punctuator .colon)
  let type ← typeRef levels
  let defaultValue ← defaultValue levels
  let directives ← directives true levels
  return ⟨description, name, type, defaultValue, directives, ← span start⟩

def argumentDefinitions (levels : Nat) : Parser (List InputValueDefinition) :=
  optionalMany (.punctuator .parenOpen) (inputValueDefinition levels) (.punctuator .parenClose)

def fieldDefinition (levels : Nat) : Parser FieldDefinition := do
  let start ← current
  let description ← description
  let name ← name
  let arguments ← argumentDefinitions levels
  expect (.punctuator .colon)
  let type ← typeRef levels
  let directives ← directives true levels
  return ⟨description, name, arguments, type, directives, ← span start⟩

/-- The name of an enum value; the words of the other scalar values are none. -/
def enumValueName : Parser Name := do
  let token ← current
  if token.value? = some "true" ∨ token.value? = some "false" ∨ token.value? = some "null" then
    fail token (.reservedEnumValue token.lexeme)
  else name

def enumValueDefinition (levels : Nat) : Parser EnumValueDefinition := do
  let start ← current
  let description ← description
  let name ← enumValueName
  let directives ← directives true levels
  return ⟨description, name, directives, ← span start⟩

def implementsInterfaces : Parser (List NamedType) := do
  if ← acceptKeyword "implements" then delimited (.punctuator .ampersand) namedType
  else return []

def unionMembers : Parser (List NamedType) := do
  if ← accept (.punctuator .equals) then delimited (.punctuator .pipe) namedType
  else return []

def braced (item : Parser α) : Parser (List α) :=
  optionalMany (.punctuator .braceOpen) item (.punctuator .braceClose)

/-- All that follows a type's name: directives stand between the interfaces and the rest. -/
def typeBody (levels : Nat) : TypeForm → Parser (List Directive × TypeBody)
  | .scalar => return (← directives true levels, .scalar)
  | .object => do
      let interfaces ← implementsInterfaces
      let directives ← directives true levels
      return (directives, .object interfaces (← braced (fieldDefinition levels)))
  | .interface => do
      let interfaces ← implementsInterfaces
      let directives ← directives true levels
      return (directives, .interface interfaces (← braced (fieldDefinition levels)))
  | .union => do
      let directives ← directives true levels
      return (directives, .union (← unionMembers))
  | .enum => do
      let directives ← directives true levels
      return (directives, .enum (← braced (enumValueDefinition levels)))
  | .inputObject => do
      let directives ← directives true levels
      return (directives, .inputObject (← braced (inputValueDefinition levels)))

def typeDefinition (levels : Nat) (form : TypeForm) : Parser TypeDefinition := do
  let start ← current
  let description ← description
  expectKeyword form.keyword
  let name ← name
  let (directives, body) ← typeBody levels form
  return ⟨description, name, directives, body, ← span start⟩

def directiveLocation : Parser Name := do
  let start ← current
  let name ← name
  if (DirectiveLocation.ofText? name.value).isSome then return name
  else fail start (.unexpected start.lexeme)

def directiveDefinition (levels : Nat) : Parser DirectiveDefinition := do
  let start ← current
  let description ← description
  expectKeyword "directive"
  expect (.punctuator .atSign)
  let name ← name
  let arguments ← argumentDefinitions levels
  let repeatable ← acceptKeyword "repeatable"
  expectKeyword "on"
  let locations ← delimited (.punctuator .pipe) directiveLocation
  return ⟨description, name, arguments, repeatable, locations, ← span start⟩

def schemaExtension (levels : Nat) : Parser SchemaExtension := do
  let start ← current
  expectKeyword "extend"
  expectKeyword "schema"
  let directives ← directives true levels
  let operationTypes ← braced operationTypeDefinition
  if directives.isEmpty && operationTypes.isEmpty then unexpected
  else return ⟨directives, operationTypes, ← span start⟩

def typeExtension (levels : Nat) (form : TypeForm) : Parser TypeExtension := do
  let start ← current
  expectKeyword "extend"
  expectKeyword form.keyword
  let name ← name
  let (directives, body) ← typeBody levels form
  if directives.isEmpty && body.isEmpty then unexpected
  else return ⟨name, directives, body, ← span start⟩

def extension (levels : Nat) : Parser Definition := do
  let keyword ← lookahead
  match keyword.lexeme with
  | .name "schema" => return .schemaExtension (← schemaExtension levels)
  | .name text =>
      match TypeForm.ofKeyword? text with
      | some form => return .typeExtension (← typeExtension levels form)
      | none => fail keyword (.unexpected keyword.lexeme)
  | _ => fail keyword (.unexpected keyword.lexeme)

end GraphQL.Parser

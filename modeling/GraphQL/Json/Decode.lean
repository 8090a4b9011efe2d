import GraphQL.Json.Shape
import GraphQL.Tree.Node

/-!
Reading nodes back from JSON. Where nodes of several kinds may stand, the entry `kind` tells
which one it is, and a node of another group is refused only after it has been read; in all
other places the kind is not looked at. Entries that no part has are ignored.
-/

namespace GraphQL

open Json

def Position.ofJson : Json → Shaped Position :=
  parts fun json => return ⟨← json.required "line" toCount, ← json.required "column" toCount⟩

def Location.ofJson : Json → Shaped Location :=
  parts fun json => do
    let start ← json.required "start" toCount
    let stop ← json.required "end" toCount
    let startPosition ← json.required "startPosition" Position.ofJson
    let endPosition ← json.required "endPosition" Position.ofJson
    return ⟨start, stop, startPosition, endPosition, none⟩

def locOf (json : Json) : Shaped (Option Location) := json.optional "loc" Location.ofJson

def Name.ofJson : Json → Shaped Name :=
  parts fun json => return ⟨← json.required "value" toText, ← locOf json⟩

def nameOf (json : Json) : Shaped Name := json.required "name" Name.ofJson

def StringValue.ofJson : Json → Shaped StringValue :=
  parts fun json =>
    return ⟨← json.required "value" toText, ← json.flag "block", ← locOf json⟩

def Variable.ofJson : Json → Shaped Variable :=
  parts fun json => return ⟨← nameOf json, ← locOf json⟩

def NamedType.ofJson : Json → Shaped NamedType :=
  parts fun json => return ⟨← nameOf json, ← locOf json⟩

/-- An operation type by its keyword, alone or as the only key of an object. -/
def OperationType.ofJson (json : Json) : Shaped OperationType :=
  let keyword :=
    match json with
    | .string keyword | .object [(keyword, .null)] => OperationType.ofKeyword? keyword
    | _ => none
  match keyword with
  | some operation => .ok operation
  | none => .error .mismatch

namespace Decode

/-- How the node at a place of several kinds is read. -/
abbrev Inner := Json → Shaped Node

/-- Reads a node of any kind and refuses it unless it belongs to a group. -/
def group (expected : String) (narrow : Node → Option α) (inner : Inner) (json : Json) :
    Shaped α := do
  let node ← inner json
  match narrow node with
  | some found => .ok found
  | none => .error (.wrongGroup expected node.kind)

def value (inner : Inner) : Json → Shaped Value :=
  group "a value" (fun | .value found => some found | _ => none) inner

def type (inner : Inner) : Json → Shaped TypeRef :=
  group "a type" (fun | .type found => some found | _ => none) inner

def nullableType (inner : Inner) : Json → Shaped NullableType :=
  group "a nullable type" (fun | .type (.nullable found) => some found | _ => none) inner

def selection (inner : Inner) : Json → Shaped Selection :=
  group "a selection" (fun | .selection found => some found | _ => none) inner

def definition (inner : Inner) : Json → Shaped Definition :=
  group "a definition" (fun | .definition found => some found | _ => none) inner

variable (inner : Inner)

def objectField : Json → Shaped ObjectField :=
  parts fun json =>
    return ⟨← nameOf json, ← json.required "value" (value inner), ← locOf json⟩

def argument : Json → Shaped Argument :=
  parts fun json =>
    return ⟨← nameOf json, ← json.required "value" (value inner), ← locOf json⟩

def directive : Json → Shaped Directive :=
  parts fun json =>
    return ⟨← nameOf json, ← json.listed "arguments" (argument inner), ← locOf json⟩

def directivesOf (json : Json) : Shaped (List Directive) :=
  json.listed "directives" (directive inner)

def selectionSet : Json → Shaped SelectionSet :=
  parts fun json => return ⟨← json.listed "selections" (selection inner), ← locOf json⟩

def field : Json → Shaped Field :=
  parts fun json => do
    let responseAlias ← json.optional "alias" Name.ofJson
    let name ← nameOf json
    let arguments ← json.listed "arguments" (argument inner)
    let directives ← directivesOf inner json
    let selectionSet ← json.optional "selectionSet" (selectionSet inner)
    return ⟨responseAlias, name, arguments, directives, selectionSet, ← locOf json⟩

def fragmentSpread : Json → Shaped FragmentSpread :=
  parts fun json => return ⟨← nameOf json, ← directivesOf inner json, ← locOf json⟩

def inlineFragment : Json → Shaped InlineFragment :=
  parts fun json => do
    let typeCondition ← json.optional "typeCondition" NamedType.ofJson
    let directives ← directivesOf inner json
    let selectionSet ← json.required "selectionSet" (selectionSet inner)
    return ⟨typeCondition, directives, selectionSet, ← locOf json⟩

def variableDefinition : Json → Shaped VariableDefinition :=
  parts fun json => do
    let declared ← json.required "variable" Variable.ofJson
    let type ← json.required "type" (type inner)
    let defaultValue ← json.optional "defaultValue" (value inner)
    let directives ← directivesOf inner json
    return ⟨declared, type, defaultValue, directives, ← locOf json⟩

def operationDefinition : Json → Shaped OperationDefinition :=
  parts fun json => do
    let operation ← json.required "operation" OperationType.ofJson
    let name ← json.optional "name" Name.ofJson
    let variableDefinitions ← json.listed "variableDefinitions" (variableDefinition inner)
    let directives ← directivesOf inner json
    let selectionSet ← json.required "selectionSet" (selectionSet inner)
    return ⟨operation, name, variableDefinitions, directives, selectionSet, ← locOf json⟩

def fragmentDefinition : Json → Shaped FragmentDefinition :=
  parts fun json => do
    let name ← nameOf json
    let variableDefinitions ← json.listed "variableDefinitions" (variableDefinition inner)
    let typeCondition ← json.required "typeCondition" NamedType.ofJson
    let directives ← directivesOf inner json
    let selectionSet ← json.required "selectionSet" (selectionSet inner)
    return ⟨name, variableDefinitions, typeCondition, directives, selectionSet, ← locOf json⟩

def operationTypeDefinition : Json → Shaped OperationTypeDefinition :=
  parts fun json => do
    let operation ← json.required "operation" OperationType.ofJson
    let type ← json.required "type" NamedType.ofJson
    return ⟨operation, type, ← locOf json⟩

def operationTypesOf (json : Json) : Shaped (List OperationTypeDefinition) :=
  json.listed "operationTypes" operationTypeDefinition

def descriptionOf (json : Json) : Shaped (Option StringValue) :=
  json.optional "description" StringValue.ofJson

def schemaDefinition : Json → Shaped SchemaDefinition :=
  parts fun json => do
    let description ← descriptionOf json
    let directives ← directivesOf inner json
    return ⟨description, directives, ← operationTypesOf json, ← locOf json⟩

def schemaExtension : Json → Shaped SchemaExtension :=
  parts fun json =>
    return ⟨← directivesOf inner json, ← operationTypesOf json, ← locOf json⟩

def inputValueDefinition : Json → Shaped InputValueDefinition :=
  parts fun json => do
    let description ← descriptionOf json
    let name ← nameOf json
    let type ← json.required "type" (type inner)
    let defaultValue ← json.optional "defaultValue" (value inner)
    let directives ← directivesOf inner json
    return ⟨description, name, type, defaultValue, directives, ← locOf json⟩

def fieldDefinition : Json → Shaped FieldDefinition :=
  parts fun json => do
    let description ← descriptionOf json
    let name ← nameOf json
    let arguments ← json.listed "arguments" (inputValueDefinition inner)
    let type ← json.required "type" (type inner)
    let directives ← directivesOf inner json
    return ⟨description, name, arguments, type, directives, ← locOf json⟩

def enumValueDefinition : Json → Shaped EnumValueDefinition :=
  parts fun json => do
    let description ← descriptionOf json
    let name ← nameOf json
    let directives ← directivesOf inner json
    return ⟨description, name, directives, ← locOf json⟩

def interfacesOf (json : Json) : Shaped (List NamedType) :=
  json.listed "interfaces" NamedType.ofJson

def typeBody (json : Json) : TypeForm → Shaped TypeBody
  | .scalar => return .scalar
  | .object =>
      return .object (← interfacesOf json) (← json.listed "fields" (fieldDefinition inner))
  | .interface =>
      return .interface (← interfacesOf json) (← json.listed "fields" (fieldDefinition inner))
  | .union => return .union (← json.listed "types" NamedType.ofJson)
  | .enum => return .enum (← json.listed "values" (enumValueDefinition inner))
  | .inputObject => return .inputObject (← json.listed "fields" (inputValueDefinition inner))

def typeDefinition (form : TypeForm) : Json → Shaped TypeDefinition :=
  parts fun json => do
    let description ← descriptionOf json
    let name ← nameOf json
    let directives ← directivesOf inner json
    let body ← typeBody inner json form
    return ⟨description, name, directives, body, ← locOf json⟩

def typeExtension (form : TypeForm) : Json → Shaped TypeExtension :=
  parts fun json => do
    let name ← nameOf json
    let directives ← directivesOf inner json
    let body ← typeBody inner json form
    return ⟨name, directives, body, ← locOf json⟩

def directiveDefinition : Json → Shaped DirectiveDefinition :=
  parts fun json => do
    let description ← descriptionOf json
    let name ← nameOf json
    let arguments ← json.listed "arguments" (inputValueDefinition inner)
    let repeatable ← json.flag "repeatable"
    let locations ← json.listed "locations" Name.ofJson
    return ⟨description, name, arguments, repeatable, locations, ← locOf json⟩

def document : Json → Shaped Document :=
  parts fun json => return ⟨← json.listed "definitions" (definition inner), ← locOf json⟩

def textValue (build : String → Option Location → Value) : Json → Shaped Node :=
  parts fun json => return .value (build (← json.required "value" toText) (← locOf json))

def ofKind (kind : Kind) (json : Json) : Shaped Node :=
  match kind with
  | .name => .name <$> Name.ofJson json
  | .document => .document <$> document inner json
  | .operationDefinition =>
      (fun found => .definition (.operation found)) <$> operationDefinition inner json
  | .variableDefinition => .variableDefinition <$> variableDefinition inner json
  | .selectionSet => .selectionSet <$> selectionSet inner json
  | .field => (fun found => .selection (.field found)) <$> field inner json
  | .argument => .argument <$> argument inner json
  | .fragmentSpread => (fun found => .selection (.spread found)) <$> fragmentSpread inner json
  | .inlineFragment => (fun found => .selection (.inline found)) <$> inlineFragment inner json
  | .fragmentDefinition =>
      (fun found => .definition (.fragment found)) <$> fragmentDefinition inner json
  | .var => (fun found => .value (.var found)) <$> Variable.ofJson json
  | .intValue => textValue .int json
  | .floatValue => textValue .float json
  | .stringValue => (fun found => .value (.string found)) <$> StringValue.ofJson json
  | .booleanValue =>
      parts (fun json =>
        return .value (.boolean (← json.required "value" toBool) (← locOf json))) json
  | .nullValue => parts (fun json => return .value (.null (← locOf json))) json
  | .enumValue => textValue .enum json
  | .listValue =>
      parts (fun json =>
        return .value (.list (← json.listed "values" (value inner)) (← locOf json))) json
  | .objectValue =>
      parts (fun json =>
        return .value (.object (← json.listed "fields" (objectField inner)) (← locOf json))) json
  | .objectField => .objectField <$> objectField inner json
  | .directive => .directive <$> directive inner json
  | .namedType => (fun found => .type (.nullable (.named found))) <$> NamedType.ofJson json
  | .listType =>
      parts (fun json =>
        return .type (.nullable
          (.list (← json.required "type" (type inner)) (← locOf json)))) json
  | .nonNullType =>
      parts (fun json =>
        return .type
          (.nonNull (← json.required "type" (nullableType inner)) (← locOf json))) json
  | .schemaDefinition => (fun found => .definition (.schema found)) <$> schemaDefinition inner json
  | .operationTypeDefinition => .operationType <$> operationTypeDefinition json
  | .scalarTypeDefinition => typed .scalar
  | .objectTypeDefinition => typed .object
  | .fieldDefinition => .fieldDefinition <$> fieldDefinition inner json
  | .inputValueDefinition => .inputValueDefinition <$> inputValueDefinition inner json
  | .interfaceTypeDefinition => typed .interface
  | .unionTypeDefinition => typed .union
  | .enumTypeDefinition => typed .enum
  | .enumValueDefinition => .enumValueDefinition <$> enumValueDefinition inner json
  | .inputObjectTypeDefinition => typed .inputObject
  | .directiveDefinition =>
      (fun found => .definition (.directive found)) <$> directiveDefinition inner json
  | .schemaExtension =>
      (fun found => .definition (.schemaExtension found)) <$> schemaExtension inner json
  | .scalarTypeExtension => extended .scalar
  | .objectTypeExtension => extended .object
  | .interfaceTypeExtension => extended .interface
  | .unionTypeExtension => extended .union
  | .enumTypeExtension => extended .enum
  | .inputObjectTypeExtension => extended .inputObject
where
  typed (form : TypeForm) : Shaped Node :=
    (fun found => .definition (.type found)) <$> typeDefinition inner form json
  extended (form : TypeForm) : Shaped Node :=
    (fun found => .definition (.typeExtension found)) <$> typeExtension inner form json

end Decode

def Json.kind? (json : Json) : Option Kind := do
  Kind.ofText? (← (← json.field? "kind").string?)

/-- The node that an object is by its kind, where objects nest at most `levels` deep. -/
def Node.ofJsonWithin : (levels : Nat) → Json → Shaped Node
  | 0, _ => .error .mismatch
  | levels + 1, json =>
      match json.kind? with
      | some kind => Decode.ofKind (ofJsonWithin levels) kind json
      | none => .error (.unknownKind json)

def Node.ofJson (json : Json) : Shaped Node := ofJsonWithin json.depth json

/-- The node that an object is by its kind. An object without a known kind is no error here, but no
node. -/
def Node.ofJson? (json : Json) : Shaped (Option Node) :=
  if json.kind?.isSome then some <$> Node.ofJson json else .ok none

end GraphQL

import GraphQL.Json.Basic
import GraphQL.Tree.Node

/-!
Nodes as JSON objects. The kind comes first, then the parts in the order of the node's form,
then the location if there is one. A part that is missing is written as null.
-/

namespace GraphQL

namespace Json

def ofNat (value : Nat) : Json := .int value

def ofOption (encode : α → Json) : Option α → Json
  | none => .null
  | some value => encode value

def ofList (encode : α → Json) (items : List α) : Json := .array (items.map encode)

end Json

def Position.toJson (position : Position) : Json :=
  .object [("line", .ofNat position.line), ("column", .ofNat position.column)]

/-- A location without its source, which other programs do not know. -/
def Location.toJson (loc : Location) : Json :=
  .object [("start", .ofNat loc.start), ("end", .ofNat loc.stop),
    ("startPosition", loc.startPosition.toJson), ("endPosition", loc.endPosition.toJson)]

def locEntry : Option Location → List (String × Json)
  | none => []
  | some loc => [("loc", loc.toJson)]

def nodeJson (kind : Kind) (parts : List (String × Json)) (loc : Option Location) : Json :=
  .object (("kind", .string kind.text) :: (parts ++ locEntry loc))

def Name.toJson (name : Name) : Json :=
  nodeJson .name [("value", .string name.value)] name.loc

def StringValue.toJson (literal : StringValue) : Json :=
  nodeJson .stringValue [("value", .string literal.value), ("block", .bool literal.block)]
    literal.loc

def Variable.toJson (reference : Variable) : Json :=
  nodeJson .var [("name", reference.name.toJson)] reference.loc

mutual

def Value.toJson : Value → Json
  | .var reference => reference.toJson
  | .int text loc => nodeJson .intValue [("value", .string text)] loc
  | .float text loc => nodeJson .floatValue [("value", .string text)] loc
  | .string literal => literal.toJson
  | .boolean value loc => nodeJson .booleanValue [("value", .bool value)] loc
  | .null loc => nodeJson .nullValue [] loc
  | .enum name loc => nodeJson .enumValue [("value", .string name)] loc
  | .list items loc => nodeJson .listValue [("values", .array (itemsJson items))] loc
  | .object fields loc => nodeJson .objectValue [("fields", .array (fieldsJson fields))] loc

def itemsJson : List Value → List Json
  | [] => []
  | item :: rest => item.toJson :: itemsJson rest

def fieldsJson : List ObjectField → List Json
  | [] => []
  | field :: rest => field.toJson :: fieldsJson rest

def ObjectField.toJson : ObjectField → Json
  | ⟨name, value, loc⟩ =>
      nodeJson .objectField [("name", name.toJson), ("value", value.toJson)] loc

end

def Argument.toJson (argument : Argument) : Json :=
  nodeJson .argument [("name", argument.name.toJson), ("value", argument.value.toJson)]
    argument.loc

def Directive.toJson (directive : Directive) : Json :=
  nodeJson .directive
    [("name", directive.name.toJson), ("arguments", .ofList Argument.toJson directive.arguments)]
    directive.loc

def directivesEntry (directives : List Directive) : String × Json :=
  ("directives", .ofList Directive.toJson directives)

def NamedType.toJson (type : NamedType) : Json :=
  nodeJson .namedType [("name", type.name.toJson)] type.loc

mutual

def TypeRef.toJson : TypeRef → Json
  | .nullable type => type.toJson
  | .nonNull type loc => nodeJson .nonNullType [("type", type.toJson)] loc

def NullableType.toJson : NullableType → Json
  | .named type => type.toJson
  | .list item loc => nodeJson .listType [("type", item.toJson)] loc

end

def FragmentSpread.toJson (spread : FragmentSpread) : Json :=
  nodeJson .fragmentSpread [("name", spread.name.toJson), directivesEntry spread.directives]
    spread.loc

mutual

def Selection.toJson : Selection → Json
  | .field field => field.toJson
  | .spread spread => spread.toJson
  | .inline fragment => fragment.toJson

def Field.toJson : Field → Json
  | ⟨responseAlias, name, arguments, directives, set, loc⟩ =>
      nodeJson .field
        [("alias", .ofOption Name.toJson responseAlias), ("name", name.toJson),
          ("arguments", .ofList Argument.toJson arguments), directivesEntry directives,
          ("selectionSet", optionalSetJson set)]
        loc

def InlineFragment.toJson : InlineFragment → Json
  | ⟨typeCondition, directives, set, loc⟩ =>
      nodeJson .inlineFragment
        [("typeCondition", .ofOption NamedType.toJson typeCondition),
          directivesEntry directives, ("selectionSet", set.toJson)]
        loc

def SelectionSet.toJson : SelectionSet → Json
  | ⟨selections, loc⟩ =>
      nodeJson .selectionSet [("selections", .array (selectionsJson selections))] loc

def optionalSetJson : Option SelectionSet → Json
  | none => .null
  | some set => set.toJson

def selectionsJson : List Selection → List Json
  | [] => []
  | first :: rest => first.toJson :: selectionsJson rest

end

def OperationType.toJson (operation : OperationType) : Json := .string operation.keyword

def VariableDefinition.toJson (definition : VariableDefinition) : Json :=
  nodeJson .variableDefinition
    [("variable", definition.declared.toJson), ("type", definition.type.toJson),
      ("defaultValue", .ofOption Value.toJson definition.defaultValue),
      directivesEntry definition.directives]
    definition.loc

def OperationDefinition.toJson (operation : OperationDefinition) : Json :=
  nodeJson .operationDefinition
    [("operation", operation.operation.toJson), ("name", .ofOption Name.toJson operation.name),
      ("variableDefinitions",
        .ofList VariableDefinition.toJson operation.variableDefinitions),
      directivesEntry operation.directives, ("selectionSet", operation.selectionSet.toJson)]
    operation.loc

def FragmentDefinition.toJson (fragment : FragmentDefinition) : Json :=
  nodeJson .fragmentDefinition
    [("name", fragment.name.toJson),
      ("variableDefinitions", .ofList VariableDefinition.toJson fragment.variableDefinitions),
      ("typeCondition", fragment.typeCondition.toJson), directivesEntry fragment.directives,
      ("selectionSet", fragment.selectionSet.toJson)]
    fragment.loc

def OperationTypeDefinition.toJson (definition : OperationTypeDefinition) : Json :=
  nodeJson .operationTypeDefinition
    [("operation", definition.operation.toJson), ("type", definition.type.toJson)]
    definition.loc

def descriptionEntry (description : Option StringValue) : String × Json :=
  ("description", .ofOption StringValue.toJson description)

def operationTypesEntry (definitions : List OperationTypeDefinition) : String × Json :=
  ("operationTypes", .ofList OperationTypeDefinition.toJson definitions)

def SchemaDefinition.toJson (schema : SchemaDefinition) : Json :=
  nodeJson .schemaDefinition
    [descriptionEntry schema.description, directivesEntry schema.directives,
      operationTypesEntry schema.operationTypes]
    schema.loc

def SchemaExtension.toJson (schema : SchemaExtension) : Json :=
  nodeJson .schemaExtension
    [directivesEntry schema.directives, operationTypesEntry schema.operationTypes] schema.loc

def InputValueDefinition.toJson (definition : InputValueDefinition) : Json :=
  nodeJson .inputValueDefinition
    [descriptionEntry definition.description, ("name", definition.name.toJson),
      ("type", definition.type.toJson),
      ("defaultValue", .ofOption Value.toJson definition.defaultValue),
      directivesEntry definition.directives]
    definition.loc

def argumentDefinitionsEntry (definitions : List InputValueDefinition) : String × Json :=
  ("arguments", .ofList InputValueDefinition.toJson definitions)

def FieldDefinition.toJson (field : FieldDefinition) : Json :=
  nodeJson .fieldDefinition
    [descriptionEntry field.description, ("name", field.name.toJson),
      argumentDefinitionsEntry field.arguments, ("type", field.type.toJson),
      directivesEntry field.directives]
    field.loc

def EnumValueDefinition.toJson (value : EnumValueDefinition) : Json :=
  nodeJson .enumValueDefinition
    [descriptionEntry value.description, ("name", value.name.toJson),
      directivesEntry value.directives]
    value.loc

namespace TypeBody

def interfaceEntries : TypeBody → List (String × Json)
  | object interfaces _ | interface interfaces _ =>
      [("interfaces", .ofList NamedType.toJson interfaces)]
  | _ => []

def memberEntries : TypeBody → List (String × Json)
  | scalar => []
  | object _ fields | interface _ fields => [("fields", .ofList FieldDefinition.toJson fields)]
  | union members => [("types", .ofList NamedType.toJson members)]
  | enum values => [("values", .ofList EnumValueDefinition.toJson values)]
  | inputObject fields => [("fields", .ofList InputValueDefinition.toJson fields)]

def entries (body : TypeBody) (name : Name) (directives : List Directive) :
    List (String × Json) :=
  ("name", name.toJson) ::
    (body.interfaceEntries ++ directivesEntry directives :: body.memberEntries)

end TypeBody

def TypeDefinition.toJson (type : TypeDefinition) : Json :=
  nodeJson type.body.form.definitionKind
    (descriptionEntry type.description :: type.body.entries type.name type.directives) type.loc

def TypeExtension.toJson (type : TypeExtension) : Json :=
  nodeJson type.body.form.extensionKind (type.body.entries type.name type.directives) type.loc

def DirectiveDefinition.toJson (directive : DirectiveDefinition) : Json :=
  nodeJson .directiveDefinition
    [descriptionEntry directive.description, ("name", directive.name.toJson),
      argumentDefinitionsEntry directive.arguments, ("repeatable", .bool directive.repeatable),
      ("locations", .ofList Name.toJson directive.locations)]
    directive.loc

def Definition.toJson : Definition → Json
  | .operation inner => inner.toJson
  | .fragment inner => inner.toJson
  | .schema inner => inner.toJson
  | .type inner => inner.toJson
  | .directive inner => inner.toJson
  | .schemaExtension inner => inner.toJson
  | .typeExtension inner => inner.toJson

def Document.toJson (document : Document) : Json :=
  nodeJson .document [("definitions", .ofList Definition.toJson document.definitions)]
    document.loc

def Node.toJson : Node → Json
  | .name inner => inner.toJson
  | .document inner => inner.toJson
  | .definition inner => inner.toJson
  | .variableDefinition inner => inner.toJson
  | .selectionSet inner => inner.toJson
  | .selection inner => inner.toJson
  | .argument inner => inner.toJson
  | .value inner => inner.toJson
  | .objectField inner => inner.toJson
  | .directive inner => inner.toJson
  | .type inner => inner.toJson
  | .operationType inner => inner.toJson
  | .fieldDefinition inner => inner.toJson
  | .inputValueDefinition inner => inner.toJson
  | .enumValueDefinition inner => inner.toJson

end GraphQL

import GraphQL.Tree.Definition
import GraphQL.Tree.Kind

/-!
Nodes of every kind as one type, for what is done with any of them: printing, and giving
them as JSON.
-/

namespace GraphQL

inductive Node where
  | name (name : Name)
  | document (document : Document)
  | definition (definition : Definition)
  | variableDefinition (definition : VariableDefinition)
  | selectionSet (set : SelectionSet)
  | selection (selection : Selection)
  | argument (argument : Argument)
  | value (value : Value)
  | objectField (field : ObjectField)
  | directive (directive : Directive)
  | type (type : TypeRef)
  | operationType (definition : OperationTypeDefinition)
  | fieldDefinition (definition : FieldDefinition)
  | inputValueDefinition (definition : InputValueDefinition)
  | enumValueDefinition (definition : EnumValueDefinition)
deriving DecidableEq

def Value.kind : Value → Kind
  | var _ => .var
  | int .. => .intValue
  | float .. => .floatValue
  | string _ => .stringValue
  | boolean .. => .booleanValue
  | null _ => .nullValue
  | enum .. => .enumValue
  | list .. => .listValue
  | object .. => .objectValue

def NullableType.kind : NullableType → Kind
  | named _ => .namedType
  | list .. => .listType

def TypeRef.kind : TypeRef → Kind
  | nullable inner => inner.kind
  | nonNull .. => .nonNullType

def Selection.kind : Selection → Kind
  | field _ => .field
  | spread _ => .fragmentSpread
  | inline _ => .inlineFragment

def TypeForm.definitionKind : TypeForm → Kind
  | scalar => .scalarTypeDefinition
  | object => .objectTypeDefinition
  | interface => .interfaceTypeDefinition
  | union => .unionTypeDefinition
  | enum => .enumTypeDefinition
  | inputObject => .inputObjectTypeDefinition

def TypeForm.extensionKind : TypeForm → Kind
  | scalar => .scalarTypeExtension
  | object => .objectTypeExtension
  | interface => .interfaceTypeExtension
  | union => .unionTypeExtension
  | enum => .enumTypeExtension
  | inputObject => .inputObjectTypeExtension

def Definition.kind : Definition → Kind
  | operation _ => .operationDefinition
  | fragment _ => .fragmentDefinition
  | schema _ => .schemaDefinition
  | type inner => inner.body.form.definitionKind
  | directive _ => .directiveDefinition
  | schemaExtension _ => .schemaExtension
  | typeExtension inner => inner.body.form.extensionKind

namespace Node

def kind : Node → Kind
  | name _ => .name
  | document _ => .document
  | definition inner => inner.kind
  | variableDefinition _ => .variableDefinition
  | selectionSet _ => .selectionSet
  | selection inner => inner.kind
  | argument _ => .argument
  | value inner => inner.kind
  | objectField _ => .objectField
  | directive _ => .directive
  | type inner => inner.kind
  | operationType _ => .operationTypeDefinition
  | fieldDefinition _ => .fieldDefinition
  | inputValueDefinition _ => .inputValueDefinition
  | enumValueDefinition _ => .enumValueDefinition

def loc : Node → Option Location
  | name inner => inner.loc
  | document inner => inner.loc
  | definition inner => inner.loc
  | variableDefinition inner => inner.loc
  | selectionSet inner => inner.loc
  | selection inner => inner.loc
  | argument inner => inner.loc
  | value inner => inner.loc
  | objectField inner => inner.loc
  | directive inner => inner.loc
  | type inner => inner.loc
  | operationType inner => inner.loc
  | fieldDefinition inner => inner.loc
  | inputValueDefinition inner => inner.loc
  | enumValueDefinition inner => inner.loc

end Node

end GraphQL

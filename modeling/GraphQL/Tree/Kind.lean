/-!
The kinds of nodes that a tree is made of, and the groups they form.
-/

namespace GraphQL

inductive Kind where
  | name
  | document
  | operationDefinition
  | variableDefinition
  | selectionSet
  | field
  | argument
  | fragmentSpread
  | inlineFragment
  | fragmentDefinition
  | var
  | intValue
  | floatValue
  | stringValue
  | booleanValue
  | nullValue
  | enumValue
  | listValue
  | objectValue
  | objectField
  | directive
  | namedType
  | listType
  | nonNullType
  | schemaDefinition
  | operationTypeDefinition
  | scalarTypeDefinition
  | objectTypeDefinition
  | fieldDefinition
  | inputValueDefinition
  | interfaceTypeDefinition
  | unionTypeDefinition
  | enumTypeDefinition
  | enumValueDefinition
  | inputObjectTypeDefinition
  | directiveDefinition
  | schemaExtension
  | scalarTypeExtension
  | objectTypeExtension
  | interfaceTypeExtension
  | unionTypeExtension
  | enumTypeExtension
  | inputObjectTypeExtension
deriving DecidableEq, Repr

namespace Kind

def all : List Kind :=
  [name, document, operationDefinition, variableDefinition, selectionSet, field, argument,
    fragmentSpread, inlineFragment, fragmentDefinition, var, intValue, floatValue, stringValue,
    booleanValue, nullValue, enumValue, listValue, objectValue, objectField, directive,
    namedType, listType, nonNullType, schemaDefinition, operationTypeDefinition,
    scalarTypeDefinition, objectTypeDefinition, fieldDefinition, inputValueDefinition,
    interfaceTypeDefinition, unionTypeDefinition, enumTypeDefinition, enumValueDefinition,
    inputObjectTypeDefinition, directiveDefinition, schemaExtension, scalarTypeExtension,
    objectTypeExtension, interfaceTypeExtension, unionTypeExtension, enumTypeExtension,
    inputObjectTypeExtension]

def text : Kind → String
  | name => "Name"
  | document => "Document"
  | operationDefinition => "OperationDefinition"
  | variableDefinition => "VariableDefinition"
  | selectionSet => "SelectionSet"
  | field => "Field"
  | argument => "Argument"
  | fragmentSpread => "FragmentSpread"
  | inlineFragment => "InlineFragment"
  | fragmentDefinition => "FragmentDefinition"
  | var => "Variable"
  | intValue => "IntValue"
  | floatValue => "FloatValue"
  | stringValue => "StringValue"
  | booleanValue => "BooleanValue"
  | nullValue => "NullValue"
  | enumValue => "EnumValue"
  | listValue => "ListValue"
  | objectValue => "ObjectValue"
  | objectField => "ObjectField"
  | directive => "Directive"
  | namedType => "NamedType"
  | listType => "ListType"
  | nonNullType => "NonNullType"
  | schemaDefinition => "SchemaDefinition"
  | operationTypeDefinition => "OperationTypeDefinition"
  | scalarTypeDefinition => "ScalarTypeDefinition"
  | objectTypeDefinition => "ObjectTypeDefinition"
  | fieldDefinition => "FieldDefinition"
  | inputValueDefinition => "InputValueDefinition"
  | interfaceTypeDefinition => "InterfaceTypeDefinition"
  | unionTypeDefinition => "UnionTypeDefinition"
  | enumTypeDefinition => "EnumTypeDefinition"
  | enumValueDefinition => "EnumValueDefinition"
  | inputObjectTypeDefinition => "InputObjectTypeDefinition"
  | directiveDefinition => "DirectiveDefinition"
  | schemaExtension => "SchemaExtension"
  | scalarTypeExtension => "ScalarTypeExtension"
  | objectTypeExtension => "ObjectTypeExtension"
  | interfaceTypeExtension => "InterfaceTypeExtension"
  | unionTypeExtension => "UnionTypeExtension"
  | enumTypeExtension => "EnumTypeExtension"
  | inputObjectTypeExtension => "InputObjectTypeExtension"

def ofText? (text : String) : Option Kind :=
  all.find? fun kind => kind.text = text

def isExecutableDefinition : Kind → Bool
  | operationDefinition | fragmentDefinition => true
  | _ => false

def isSelection : Kind → Bool
  | field | fragmentSpread | inlineFragment => true
  | _ => false

def isValue : Kind → Bool
  | var | intValue | floatValue | stringValue | booleanValue | nullValue | enumValue
  | listValue | objectValue => true
  | _ => false

def isType : Kind → Bool
  | namedType | listType | nonNullType => true
  | _ => false

def isTypeDefinition : Kind → Bool
  | scalarTypeDefinition | objectTypeDefinition | interfaceTypeDefinition
  | unionTypeDefinition | enumTypeDefinition | inputObjectTypeDefinition => true
  | _ => false

def isTypeSystemDefinition (kind : Kind) : Bool :=
  kind = schemaDefinition || kind = directiveDefinition || kind.isTypeDefinition

def isTypeExtension : Kind → Bool
  | scalarTypeExtension | objectTypeExtension | interfaceTypeExtension | unionTypeExtension
  | enumTypeExtension | inputObjectTypeExtension => true
  | _ => false

def isTypeSystemExtension (kind : Kind) : Bool :=
  kind = schemaExtension || kind.isTypeExtension

def isDefinition (kind : Kind) : Bool :=
  kind.isExecutableDefinition || kind.isTypeSystemDefinition || kind.isTypeSystemExtension

end Kind

end GraphQL

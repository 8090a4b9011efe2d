import GraphQL.Tree.Selection

/-!
Definitions and documents. A type definition and a type extension have the same body; the
extension adds its body to a type that is defined elsewhere.
-/

namespace GraphQL

inductive OperationType where
  | query
  | mutation
  | subscription
deriving DecidableEq, Repr

namespace OperationType

def keyword : OperationType → String
  | query => "query"
  | mutation => "mutation"
  | subscription => "subscription"

def ofKeyword? (text : String) : Option OperationType :=
  match text with
  | "query" => some query
  | "mutation" => some mutation
  | "subscription" => some subscription
  | _ => none

end OperationType

structure VariableDefinition where
  declared : Variable
  type : TypeRef
  defaultValue : Option Value
  directives : List Directive
  loc : Option Location
deriving DecidableEq

structure OperationDefinition where
  operation : OperationType
  name : Option Name
  variableDefinitions : List VariableDefinition
  directives : List Directive
  selectionSet : SelectionSet
  loc : Option Location
deriving DecidableEq

structure FragmentDefinition where
  name : Name
  variableDefinitions : List VariableDefinition
  typeCondition : NamedType
  directives : List Directive
  selectionSet : SelectionSet
  loc : Option Location
deriving DecidableEq

structure OperationTypeDefinition where
  operation : OperationType
  type : NamedType
  loc : Option Location
deriving DecidableEq

structure SchemaDefinition where
  description : Option StringValue
  directives : List Directive
  operationTypes : List OperationTypeDefinition
  loc : Option Location
deriving DecidableEq

structure SchemaExtension where
  directives : List Directive
  operationTypes : List OperationTypeDefinition
  loc : Option Location
deriving DecidableEq

structure InputValueDefinition where
  description : Option StringValue
  name : Name
  type : TypeRef
  defaultValue : Option Value
  directives : List Directive
  loc : Option Location
deriving DecidableEq

structure FieldDefinition where
  description : Option StringValue
  name : Name
  arguments : List InputValueDefinition
  type : TypeRef
  directives : List Directive
  loc : Option Location
deriving DecidableEq

structure EnumValueDefinition where
  description : Option StringValue
  name : Name
  directives : List Directive
  loc : Option Location
deriving DecidableEq

inductive TypeForm where
  | scalar
  | object
  | interface
  | union
  | enum
  | inputObject
deriving DecidableEq, Repr

namespace TypeForm

def keyword : TypeForm → String
  | scalar => "scalar"
  | object => "type"
  | interface => "interface"
  | union => "union"
  | enum => "enum"
  | inputObject => "input"

def ofKeyword? (text : String) : Option TypeForm :=
  match text with
  | "scalar" => some scalar
  | "type" => some object
  | "interface" => some interface
  | "union" => some union
  | "enum" => some enum
  | "input" => some inputObject
  | _ => none

end TypeForm

inductive TypeBody where
  | scalar
  | object (interfaces : List NamedType) (fields : List FieldDefinition)
  | interface (interfaces : List NamedType) (fields : List FieldDefinition)
  | union (members : List NamedType)
  | enum (values : List EnumValueDefinition)
  | inputObject (fields : List InputValueDefinition)
deriving DecidableEq

namespace TypeBody

def form : TypeBody → TypeForm
  | scalar => .scalar
  | object .. => .object
  | interface .. => .interface
  | union _ => .union
  | enum _ => .enum
  | inputObject _ => .inputObject

def interfaces : TypeBody → List NamedType
  | object interfaces _ | interface interfaces _ => interfaces
  | _ => []

def isEmpty : TypeBody → Bool
  | scalar => true
  | object interfaces fields | interface interfaces fields =>
      interfaces.isEmpty && fields.isEmpty
  | union members => members.isEmpty
  | enum values => values.isEmpty
  | inputObject fields => fields.isEmpty

end TypeBody

structure TypeDefinition where
  description : Option StringValue
  name : Name
  directives : List Directive
  body : TypeBody
  loc : Option Location
deriving DecidableEq

structure TypeExtension where
  name : Name
  directives : List Directive
  body : TypeBody
  loc : Option Location
deriving DecidableEq

structure DirectiveDefinition where
  description : Option StringValue
  name : Name
  arguments : List InputValueDefinition
  repeatable : Bool
  locations : List Name
  loc : Option Location
deriving DecidableEq

inductive Definition where
  | operation (definition : OperationDefinition)
  | fragment (definition : FragmentDefinition)
  | schema (definition : SchemaDefinition)
  | type (definition : TypeDefinition)
  | directive (definition : DirectiveDefinition)
  | schemaExtension (extension : SchemaExtension)
  | typeExtension (extension : TypeExtension)
deriving DecidableEq

def Definition.loc : Definition → Option Location
  | operation inner => inner.loc
  | fragment inner => inner.loc
  | schema inner => inner.loc
  | type inner => inner.loc
  | directive inner => inner.loc
  | schemaExtension inner => inner.loc
  | typeExtension inner => inner.loc

structure Document where
  definitions : List Definition
  loc : Option Location
deriving DecidableEq

namespace Document

def operations (document : Document) : List OperationDefinition :=
  document.definitions.filterMap fun
    | .operation definition => some definition
    | _ => none

def fragments (document : Document) : List FragmentDefinition :=
  document.definitions.filterMap fun
    | .fragment definition => some definition
    | _ => none

def concat (documents : List Document) : Document :=
  ⟨documents.flatMap definitions, none⟩

/-- The first operation of the given name. Without a name, the only operation. -/
def operation? (document : Document) : Option String → Option OperationDefinition
  | some name => document.operations.find? fun operation =>
      operation.name.any fun found => found.value == name
  | none =>
      match document.operations with
      | [operation] => some operation
      | _ => none

end Document

end GraphQL

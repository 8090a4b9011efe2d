import GraphQL.Printer.Executable

/-!
The canonical text of definitions and extensions of the type system.
-/

namespace GraphQL

open Layout

def printDescribed (description : Option StringValue) (definition : List Char) : List Char :=
  wrap [] (printOptional StringValue.print description) ['\n'] ++ definition

def OperationTypeDefinition.print (definition : OperationTypeDefinition) : List Char :=
  definition.operation.keyword.toList ++ ':' :: ' ' :: definition.type.print

def printOperationTypes (definitions : List OperationTypeDefinition) : List Char :=
  block (definitions.map OperationTypeDefinition.print)

def SchemaDefinition.print (schema : SchemaDefinition) : List Char :=
  printDescribed schema.description
    (words ["schema".toList, printDirectives schema.directives,
      printOperationTypes schema.operationTypes])

def SchemaExtension.print (schema : SchemaExtension) : List Char :=
  words ["extend schema".toList, printDirectives schema.directives,
    printOperationTypes schema.operationTypes]

def InputValueDefinition.print (definition : InputValueDefinition) : List Char :=
  printDescribed definition.description
    (words [definition.name.print ++ ':' :: ' ' :: definition.type.print,
      wrap "= ".toList (printOptional Value.print definition.defaultValue) [],
      printDirectives definition.directives])

/-- Argument definitions on one line, unless one of them takes several. -/
def printArgumentDefinitions (definitions : List InputValueDefinition) : List Char :=
  let parts := definitions.map InputValueDefinition.print
  if parts.any fun part => part.contains '\n' then
    wrap ['(', '\n'] (indent (join ['\n'] parts)) ['\n', ')']
  else wrap ['('] (commas parts) [')']

def FieldDefinition.print (field : FieldDefinition) : List Char :=
  printDescribed field.description
    (field.name.print ++ printArgumentDefinitions field.arguments ++ ':' :: ' ' ::
      field.type.print ++ wrap [' '] (printDirectives field.directives) [])

def EnumValueDefinition.print (value : EnumValueDefinition) : List Char :=
  printDescribed value.description (words [value.name.print, printDirectives value.directives])

def printTypes (mark : Char) (types : List NamedType) : List Char :=
  join [' ', mark, ' '] (types.map NamedType.print)

namespace TypeBody

def printInterfaces (body : TypeBody) : List Char :=
  wrap "implements ".toList (printTypes '&' body.interfaces) []

def printMembers : TypeBody → List Char
  | scalar => []
  | object _ fields | interface _ fields => block (fields.map FieldDefinition.print)
  | union members => wrap "= ".toList (printTypes '|' members) []
  | enum values => block (values.map EnumValueDefinition.print)
  | inputObject fields => block (fields.map InputValueDefinition.print)

def print (body : TypeBody) (keyword : List Char) (name : Name) (directives : List Directive) :
    List Char :=
  words [keyword, name.print, body.printInterfaces, printDirectives directives,
    body.printMembers]

end TypeBody

def TypeDefinition.print (type : TypeDefinition) : List Char :=
  printDescribed type.description
    (type.body.print type.body.form.keyword.toList type.name type.directives)

def TypeExtension.print (type : TypeExtension) : List Char :=
  type.body.print ("extend ".toList ++ type.body.form.keyword.toList) type.name type.directives

def DirectiveDefinition.print (directive : DirectiveDefinition) : List Char :=
  printDescribed directive.description
    ("directive @".toList ++ directive.name.print ++
      printArgumentDefinitions directive.arguments ++
      (if directive.repeatable then " repeatable".toList else []) ++ " on ".toList ++
      join " | ".toList (directive.locations.map Name.print))

end GraphQL

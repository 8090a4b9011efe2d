import GraphQL.BlockString
import GraphQL.Printer.Layout
import GraphQL.StringLiteral
import GraphQL.Tree.TypeRef

/-!
The canonical text of names, values, directives and type references.
-/

namespace GraphQL

open Layout

def Name.print (name : Name) : List Char := name.value.toList

def StringValue.print (literal : StringValue) : List Char :=
  if literal.block then BlockString.literal literal.value.toList
  else StringLiteral.write literal.value.toList

def Variable.print (reference : Variable) : List Char := '$' :: reference.name.print

mutual

def Value.print : Value → List Char
  | .var reference => reference.print
  | .int text _ | .float text _ | .enum text _ => text.toList
  | .string literal => literal.print
  | .boolean true _ => "true".toList
  | .boolean false _ => "false".toList
  | .null _ => "null".toList
  | .list items _ => '[' :: (commas (printItems items) ++ [']'])
  | .object fields _ => '{' :: (commas (printFields fields) ++ ['}'])

def printItems : List Value → List (List Char)
  | [] => []
  | item :: rest => item.print :: printItems rest

def printFields : List ObjectField → List (List Char)
  | [] => []
  | field :: rest => field.print :: printFields rest

def ObjectField.print : ObjectField → List Char
  | ⟨name, value, _⟩ => name.print ++ ':' :: ' ' :: value.print

end

def Argument.print (argument : Argument) : List Char :=
  argument.name.print ++ ':' :: ' ' :: argument.value.print

/-- Arguments behind what they belong to: on its line where that is short enough, else each
on a line of its own. -/
def printArguments (owner : List Char) (arguments : List Argument) : List Char :=
  let parts := arguments.map Argument.print
  let single := owner ++ wrap ['('] (commas parts) [')']
  if single.length ≤ maxLineLength then single
  else owner ++ wrap ['(', '\n'] (indent (join ['\n'] parts)) ['\n', ')']

def Directive.print (directive : Directive) : List Char :=
  printArguments ('@' :: directive.name.print) directive.arguments

def printDirectives (directives : List Directive) : List Char :=
  words (directives.map Directive.print)

def NamedType.print (type : NamedType) : List Char := type.name.print

mutual

def TypeRef.print : TypeRef → List Char
  | .nullable type => type.print
  | .nonNull type _ => type.print ++ ['!']

def NullableType.print : NullableType → List Char
  | .named type => type.print
  | .list item _ => '[' :: (item.print ++ [']'])

end

end GraphQL

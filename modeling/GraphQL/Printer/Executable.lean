import GraphQL.Printer.Value
import GraphQL.Tree.Definition

/-!
The canonical text of selections, operations and fragments.
-/

namespace GraphQL

open Layout

def FragmentSpread.print (spread : FragmentSpread) : List Char :=
  "...".toList ++ spread.name.print ++ wrap [' '] (printDirectives spread.directives) []

def printFieldName (responseAlias : Option Name) (name : Name) : List Char :=
  match responseAlias with
  | some key => key.print ++ ':' :: ' ' :: name.print
  | none => name.print

def printOptional (print : α → List Char) : Option α → List Char
  | none => []
  | some node => print node

mutual

def Selection.print : Selection → List Char
  | .field field => field.print
  | .spread spread => spread.print
  | .inline fragment => fragment.print

def Field.print : Field → List Char
  | ⟨responseAlias, name, arguments, directives, set, _⟩ =>
      words [printArguments (printFieldName responseAlias name) arguments,
        printDirectives directives, printOptionalSet set]

def InlineFragment.print : InlineFragment → List Char
  | ⟨typeCondition, directives, set, _⟩ =>
      words ["...".toList, wrap "on ".toList (printOptional NamedType.print typeCondition) [],
        printDirectives directives, set.print]

def SelectionSet.print : SelectionSet → List Char
  | ⟨selections, _⟩ => block (printSelections selections)

def printOptionalSet : Option SelectionSet → List Char
  | none => []
  | some set => set.print

def printSelections : List Selection → List (List Char)
  | [] => []
  | first :: rest => first.print :: printSelections rest

end

def VariableDefinition.print (definition : VariableDefinition) : List Char :=
  definition.declared.print ++ ':' :: ' ' :: definition.type.print ++
    wrap " = ".toList (printOptional Value.print definition.defaultValue) [] ++
    wrap [' '] (printDirectives definition.directives) []

def printVariableDefinitions (definitions : List VariableDefinition) : List Char :=
  wrap ['('] (commas (definitions.map VariableDefinition.print)) [')']

/-- An operation. A query that has nothing but selections goes without its keyword. -/
def OperationDefinition.print (operation : OperationDefinition) : List Char :=
  let keyword := operation.operation.keyword.toList
  let head := words [keyword,
    printOptional Name.print operation.name ++
      printVariableDefinitions operation.variableDefinitions,
    printDirectives operation.directives]
  if head = OperationType.query.keyword.toList then operation.selectionSet.print
  else head ++ ' ' :: operation.selectionSet.print

def FragmentDefinition.print (fragment : FragmentDefinition) : List Char :=
  "fragment ".toList ++ fragment.name.print ++
    printVariableDefinitions fragment.variableDefinitions ++ " on ".toList ++
    fragment.typeCondition.print ++ ' ' :: wrap [] (printDirectives fragment.directives) [' '] ++
    fragment.selectionSet.print

end GraphQL

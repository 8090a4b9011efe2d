import GraphQL.Printer.TypeSystem
import GraphQL.Tree.Node

/-!
The canonical text of documents and of nodes of any kind.
-/

namespace GraphQL

def Definition.print : Definition → List Char
  | .operation inner => inner.print
  | .fragment inner => inner.print
  | .schema inner => inner.print
  | .type inner => inner.print
  | .directive inner => inner.print
  | .schemaExtension inner => inner.print
  | .typeExtension inner => inner.print

def Document.print (document : Document) : List Char :=
  Layout.join ['\n', '\n'] (document.definitions.map Definition.print)

def Node.print : Node → List Char
  | .name inner => inner.print
  | .document inner => inner.print
  | .definition inner => inner.print
  | .variableDefinition inner => inner.print
  | .selectionSet inner => inner.print
  | .selection inner => inner.print
  | .argument inner => inner.print
  | .value inner => inner.print
  | .objectField inner => inner.print
  | .directive inner => inner.print
  | .type inner => inner.print
  | .operationType inner => inner.print
  | .fieldDefinition inner => inner.print
  | .inputValueDefinition inner => inner.print
  | .enumValueDefinition inner => inner.print

end GraphQL

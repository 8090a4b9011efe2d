import GraphQL.Proofs.Parser.Parts
import GraphQL.Proofs.Parser.Programs.Value

/-!
The programs of operations, fragments and the selections in them.
-/

namespace GraphQL.Parser.Program

variable {levels : Nat} {α : Type}

def fragmentName : Program levels .onward fragmentName :=
  looking fun _ => .branch _ (.step (.fail _ _)) name

def fieldKey : Program levels .onward fieldKey :=
  past name fun _ => .offer (.mark .colon) (onto name fun _ => .step (.pure _)) (.step (.pure _))

def optionalPart {pace : Pace} {kind : TokenKind} {part : Parser α}
    (program : Program levels pace part) : Program levels .free (optionalPart kind part) :=
  looking fun _ => .branch _
    (onto program fun _ => .step (.pure _))
    (.within .free (.step (.pure _)))

section
variable {set : Parser SelectionSet} (program : Program levels .opening set)

def field : Program levels .onward (field set levels) :=
  .same (field_eq set levels) <|
    looking fun _ =>
      past fieldKey fun _ =>
      onto (arguments false) fun _ =>
      onto (directives false) fun _ =>
      onto (optionalPart program) fun _ =>
      located

def inlineEnd {start : Token} {condition : Option NamedType} : Program levels .free (do
    let directives ← Parser.directives false levels
    let selectionSet ← set
    return Selection.inline ⟨condition, directives, selectionSet, ← span start⟩) :=
  onto (directives false) fun _ => onto program fun _ => located

def spreadOrInline : Program levels .onward (spreadOrInline set levels) :=
  looking fun _ =>
    past (mark .ellipsis) fun _ =>
    onto (asked (.acceptKeyword "on")) fun _ =>
    looking fun _ => .branch _
      (onto fragmentName fun _ => onto (directives false) fun _ => located)
      (.branch _
        (onto namedType fun _ => onto (.step (.pure _)) fun _ => inlineEnd program)
        (onto (.step (.pure _)) fun _ => inlineEnd program))

def selection : Program levels .onward (selection set levels) :=
  looking fun _ => .branch _
    (spreadOrInline program)
    (past (field program) fun _ => .step (.pure _))

end

def selectionSet : (levels : Nat) → Program levels .opening (selectionSet levels)
  | 0 => .refuse
  | levels + 1 => .nested <| looking fun _ =>
      past (many .selection (opening (selection (selectionSet levels))) .braceOpen _) fun _ =>
      located

def variableDefinition : Program levels .onward (variableDefinition levels) :=
  looking fun _ =>
    past variableRef fun _ =>
    onto (mark .colon) fun _ =>
    onto (typeRef levels) fun _ =>
    onto defaultValue fun _ =>
    onto (directives true) fun _ =>
    located

def variableDefinitions : Program levels .still (variableDefinitions levels) :=
  optionalMany .variableDefinition (opening variableDefinition) .parenOpen _

def operationType : Program levels .onward operationType :=
  looking fun start => past word fun _ =>
    match OperationType.ofKeyword? start.text with
    | some _ => .step (.pure _)
    | none => .step (.fail _ _)

def operation : Program levels .opening (operation levels) :=
  .same (operation_eq levels) <| looking fun _ => .branch _
    (opens (selectionSet levels) fun _ => located)
    (opening <|
      past operationType fun _ =>
      onto (optionalPart name) fun _ =>
      onto variableDefinitions fun _ =>
      onto (directives false) fun _ =>
      onto (selectionSet levels) fun _ =>
      located)

def fragmentVariables : Program levels .still (fragmentVariables levels) :=
  .bind .still (.step .allowsFragmentVariables) fun _ =>
    .branch _ variableDefinitions (.step (.pure _))

def fragment : Program levels .onward (fragment levels) :=
  .same (fragment_eq levels) <| looking fun _ =>
    past (.step (.expectKeyword _)) fun _ =>
    onto fragmentName fun _ =>
    onto fragmentVariables fun _ =>
    onto (.step (.expectKeyword _)) fun _ =>
    onto namedType fun _ =>
    onto (directives false) fun _ =>
    onto (selectionSet levels) fun _ =>
    located

end GraphQL.Parser.Program

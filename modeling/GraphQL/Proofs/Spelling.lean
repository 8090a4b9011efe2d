import GraphQL.Tree.Node

/-!
The lexemes that spell a tree, in the order in which the grammar writes them. Texts keep
nothing else of a tree: where lines break and what stands between lexemes is layout.

A definition has at most one lexeme that may be left out: the keyword of a query that has
nothing but selections, or the mark in front of a list of interfaces, union members or
directive locations. `full` writes it.
-/

namespace GraphQL

/-- Lexemes between two marks. Nothing leaves no marks. -/
def enclose (opening : Punctuator) (inner : List Lexeme) (closing : Punctuator) : List Lexeme :=
  if inner.isEmpty then [] else .punctuator opening :: (inner ++ [.punctuator closing])

theorem enclose_items {spell : α → List Lexeme} {items : List α}
    (some' : ∀ item ∈ items, spell item ≠ []) (nonempty : items ≠ [])
    (opening closing : Punctuator) :
    enclose opening (items.flatMap spell) closing =
      .punctuator opening :: (items.flatMap spell ++ [.punctuator closing]) := by
  obtain ⟨first, rest, rfl⟩ := List.exists_cons_of_ne_nil nonempty
  have inner : ((first :: rest).flatMap spell).isEmpty = false := by
    simp [some' first List.mem_cons_self]
  rw [enclose, inner, if_neg Bool.false_ne_true]

def optionalLexemes (spell : α → List Lexeme) : Option α → List Lexeme
  | none => []
  | some node => spell node

def optionalMark (full : Bool) (mark : Punctuator) : List Lexeme :=
  if full then [.punctuator mark] else []

def separatedLexemes (mark : Punctuator) (spell : α → List Lexeme) : List α → List Lexeme
  | [] => []
  | [item] => spell item
  | item :: next :: rest =>
      spell item ++ .punctuator mark :: separatedLexemes mark spell (next :: rest)

def Name.lexemes (name : Name) : List Lexeme := [.name name.value]

theorem Name.lexemes_ne_nil (name : Name) : name.lexemes ≠ [] := List.cons_ne_nil _ _

def Variable.lexemes (reference : Variable) : List Lexeme :=
  .punctuator .dollar :: reference.name.lexemes

def StringValue.lexeme (literal : StringValue) : Lexeme :=
  if literal.block then .blockString literal.value else .string literal.value

mutual

def Value.lexemes : Value → List Lexeme
  | .var reference => reference.lexemes
  | .int text _ => [.int text]
  | .float text _ => [.float text]
  | .string literal => [literal.lexeme]
  | .boolean true _ => [.name "true"]
  | .boolean false _ => [.name "false"]
  | .null _ => [.name "null"]
  | .enum name _ => [.name name]
  | .list items _ =>
      .punctuator .bracketOpen :: (itemsLexemes items ++ [.punctuator .bracketClose])
  | .object fields _ =>
      .punctuator .braceOpen :: (fieldsLexemes fields ++ [.punctuator .braceClose])

def itemsLexemes : List Value → List Lexeme
  | [] => []
  | item :: rest => item.lexemes ++ itemsLexemes rest

def fieldsLexemes : List ObjectField → List Lexeme
  | [] => []
  | field :: rest => field.lexemes ++ fieldsLexemes rest

def ObjectField.lexemes : ObjectField → List Lexeme
  | ⟨name, value, _⟩ => name.lexemes ++ .punctuator .colon :: value.lexemes

end

theorem Value.lexemes_ne_nil (value : Value) : value.lexemes ≠ [] := by
  cases value with
  | boolean value loc => cases value <;> simp [Value.lexemes]
  | _ => simp [Value.lexemes, Variable.lexemes]

theorem itemsLexemes_eq (items : List Value) :
    itemsLexemes items = items.flatMap Value.lexemes := by
  induction items with
  | nil => rfl
  | cons item rest ih => rw [itemsLexemes, ih, List.flatMap_cons]

theorem fieldsLexemes_eq (fields : List ObjectField) :
    fieldsLexemes fields = fields.flatMap ObjectField.lexemes := by
  induction fields with
  | nil => rfl
  | cons field rest ih => rw [fieldsLexemes, ih, List.flatMap_cons]

def Argument.lexemes (argument : Argument) : List Lexeme :=
  argument.name.lexemes ++ .punctuator .colon :: argument.value.lexemes

theorem Argument.lexemes_ne_nil (argument : Argument) : argument.lexemes ≠ [] :=
  List.cons_ne_nil _ _

def argumentsLexemes (arguments : List Argument) : List Lexeme :=
  enclose .parenOpen (arguments.flatMap Argument.lexemes) .parenClose

def Directive.lexemes (directive : Directive) : List Lexeme :=
  .punctuator .atSign :: (directive.name.lexemes ++ argumentsLexemes directive.arguments)

theorem Directive.lexemes_ne_nil (directive : Directive) : directive.lexemes ≠ [] :=
  List.cons_ne_nil _ _

def directivesLexemes (directives : List Directive) : List Lexeme :=
  directives.flatMap Directive.lexemes

def NamedType.lexemes (type : NamedType) : List Lexeme := type.name.lexemes

theorem NamedType.lexemes_ne_nil (type : NamedType) : type.lexemes ≠ [] := List.cons_ne_nil _ _

mutual

def TypeRef.lexemes : TypeRef → List Lexeme
  | .nullable type => type.lexemes
  | .nonNull type _ => type.lexemes ++ [.punctuator .bang]

def NullableType.lexemes : NullableType → List Lexeme
  | .named type => type.lexemes
  | .list item _ => .punctuator .bracketOpen :: (item.lexemes ++ [.punctuator .bracketClose])

end

theorem TypeRef.lexemes_ne_nil (type : TypeRef) : type.lexemes ≠ [] := by
  cases type with
  | nullable type => cases type <;> exact List.cons_ne_nil _ _
  | nonNull type loc => exact List.append_ne_nil_of_right_ne_nil _ (List.cons_ne_nil _ _)

def defaultLexemes : Option Value → List Lexeme
  | none => []
  | some value => .punctuator .equals :: value.lexemes

def FragmentSpread.lexemes (spread : FragmentSpread) : List Lexeme :=
  .punctuator .ellipsis :: (spread.name.lexemes ++ directivesLexemes spread.directives)

def aliasLexemes : Option Name → List Lexeme
  | none => []
  | some key => key.lexemes ++ [.punctuator .colon]

def conditionLexemes : Option NamedType → List Lexeme
  | none => []
  | some type => .name "on" :: type.lexemes

mutual

def Selection.lexemes : Selection → List Lexeme
  | .field field => field.lexemes
  | .spread spread => spread.lexemes
  | .inline fragment => fragment.lexemes

def Field.lexemes : Field → List Lexeme
  | ⟨responseAlias, name, arguments, directives, set, _⟩ =>
      aliasLexemes responseAlias ++ name.lexemes ++ argumentsLexemes arguments ++
        directivesLexemes directives ++ optionalSetLexemes set

def InlineFragment.lexemes : InlineFragment → List Lexeme
  | ⟨typeCondition, directives, set, _⟩ =>
      .punctuator .ellipsis ::
        (conditionLexemes typeCondition ++ directivesLexemes directives ++ set.lexemes)

def SelectionSet.lexemes : SelectionSet → List Lexeme
  | ⟨selections, _⟩ => enclose .braceOpen (selectionsLexemes selections) .braceClose

def optionalSetLexemes : Option SelectionSet → List Lexeme
  | none => []
  | some set => set.lexemes

def selectionsLexemes : List Selection → List Lexeme
  | [] => []
  | first :: rest => first.lexemes ++ selectionsLexemes rest

end

theorem Selection.lexemes_ne_nil (selection : Selection) : selection.lexemes ≠ [] := by
  cases selection with
  | field field =>
      obtain ⟨responseAlias, name, arguments, directives, set, loc⟩ := field
      simp [Selection.lexemes, Field.lexemes, Name.lexemes_ne_nil]
  | spread spread => exact List.cons_ne_nil _ _
  | inline fragment =>
      obtain ⟨typeCondition, directives, set, loc⟩ := fragment
      simp [Selection.lexemes, InlineFragment.lexemes]

theorem optionalSetLexemes_eq (set : Option SelectionSet) :
    optionalSetLexemes set = optionalLexemes SelectionSet.lexemes set := by
  cases set <;> rfl

theorem selectionsLexemes_eq (selections : List Selection) :
    selectionsLexemes selections = selections.flatMap Selection.lexemes := by
  induction selections with
  | nil => rfl
  | cons first rest ih => rw [selectionsLexemes, ih, List.flatMap_cons]

def VariableDefinition.lexemes (definition : VariableDefinition) : List Lexeme :=
  definition.declared.lexemes ++ .punctuator .colon :: (definition.type.lexemes ++
    defaultLexemes definition.defaultValue ++ directivesLexemes definition.directives)

theorem VariableDefinition.lexemes_ne_nil (definition : VariableDefinition) :
    definition.lexemes ≠ [] :=
  List.cons_ne_nil _ _

def variableDefinitionsLexemes (definitions : List VariableDefinition) : List Lexeme :=
  enclose .parenOpen (definitions.flatMap VariableDefinition.lexemes) .parenClose

/-- A query that has nothing but selections. -/
def OperationDefinition.isShorthand (operation : OperationDefinition) : Bool :=
  operation.operation = .query && operation.name.isNone &&
    operation.variableDefinitions.isEmpty && operation.directives.isEmpty

def OperationDefinition.lexemes (full : Bool) (operation : OperationDefinition) : List Lexeme :=
  if operation.isShorthand && !full then operation.selectionSet.lexemes
  else
    .name operation.operation.keyword :: (optionalLexemes Name.lexemes operation.name ++
      variableDefinitionsLexemes operation.variableDefinitions ++
      directivesLexemes operation.directives ++ operation.selectionSet.lexemes)

def FragmentDefinition.lexemes (fragment : FragmentDefinition) : List Lexeme :=
  .name "fragment" :: (fragment.name.lexemes ++
    variableDefinitionsLexemes fragment.variableDefinitions ++ .name "on" ::
      (fragment.typeCondition.lexemes ++ directivesLexemes fragment.directives ++
        fragment.selectionSet.lexemes))

def descriptionLexemes : Option StringValue → List Lexeme
  | none => []
  | some literal => [literal.lexeme]

def OperationTypeDefinition.lexemes (definition : OperationTypeDefinition) : List Lexeme :=
  .name definition.operation.keyword :: .punctuator .colon :: definition.type.lexemes

theorem OperationTypeDefinition.lexemes_ne_nil (definition : OperationTypeDefinition) :
    definition.lexemes ≠ [] :=
  List.cons_ne_nil _ _

def bracedLexemes (spell : α → List Lexeme) (items : List α) : List Lexeme :=
  enclose .braceOpen (items.flatMap spell) .braceClose

def SchemaDefinition.lexemes (schema : SchemaDefinition) : List Lexeme :=
  descriptionLexemes schema.description ++ .name "schema" ::
    (directivesLexemes schema.directives ++
      bracedLexemes OperationTypeDefinition.lexemes schema.operationTypes)

def SchemaExtension.lexemes (schema : SchemaExtension) : List Lexeme :=
  .name "extend" :: .name "schema" :: (directivesLexemes schema.directives ++
    bracedLexemes OperationTypeDefinition.lexemes schema.operationTypes)

def InputValueDefinition.lexemes (definition : InputValueDefinition) : List Lexeme :=
  descriptionLexemes definition.description ++ definition.name.lexemes ++
    .punctuator .colon :: (definition.type.lexemes ++ defaultLexemes definition.defaultValue ++
      directivesLexemes definition.directives)

theorem InputValueDefinition.lexemes_ne_nil (definition : InputValueDefinition) :
    definition.lexemes ≠ [] := by
  simp [InputValueDefinition.lexemes]

def argumentDefinitionsLexemes (definitions : List InputValueDefinition) : List Lexeme :=
  enclose .parenOpen (definitions.flatMap InputValueDefinition.lexemes) .parenClose

def FieldDefinition.lexemes (field : FieldDefinition) : List Lexeme :=
  descriptionLexemes field.description ++ field.name.lexemes ++
    argumentDefinitionsLexemes field.arguments ++ .punctuator .colon ::
      (field.type.lexemes ++ directivesLexemes field.directives)

theorem FieldDefinition.lexemes_ne_nil (field : FieldDefinition) : field.lexemes ≠ [] := by
  simp [FieldDefinition.lexemes]

def EnumValueDefinition.lexemes (value : EnumValueDefinition) : List Lexeme :=
  descriptionLexemes value.description ++ value.name.lexemes ++
    directivesLexemes value.directives

theorem EnumValueDefinition.lexemes_ne_nil (value : EnumValueDefinition) : value.lexemes ≠ [] := by
  simp [EnumValueDefinition.lexemes, Name.lexemes]

def interfacesLexemes (full : Bool) (interfaces : List NamedType) : List Lexeme :=
  if interfaces.isEmpty then []
  else
    .name "implements" :: (optionalMark full .ampersand ++
      separatedLexemes .ampersand NamedType.lexemes interfaces)

def unionMembersLexemes (full : Bool) (members : List NamedType) : List Lexeme :=
  if members.isEmpty then []
  else
    .punctuator .equals :: (optionalMark full .pipe ++
      separatedLexemes .pipe NamedType.lexemes members)

namespace TypeBody

def interfacesLexemes (full : Bool) (body : TypeBody) : List Lexeme :=
  GraphQL.interfacesLexemes full body.interfaces

def membersLexemes (full : Bool) : TypeBody → List Lexeme
  | scalar => []
  | object _ fields | interface _ fields => bracedLexemes FieldDefinition.lexemes fields
  | union members => unionMembersLexemes full members
  | enum values => bracedLexemes EnumValueDefinition.lexemes values
  | inputObject fields => bracedLexemes InputValueDefinition.lexemes fields

def lexemes (full : Bool) (body : TypeBody) (name : Name) (directives : List Directive) :
    List Lexeme :=
  name.lexemes ++ body.interfacesLexemes full ++ directivesLexemes directives ++
    body.membersLexemes full

end TypeBody

def TypeDefinition.lexemes (full : Bool) (type : TypeDefinition) : List Lexeme :=
  descriptionLexemes type.description ++ .name type.body.form.keyword ::
    type.body.lexemes full type.name type.directives

def TypeExtension.lexemes (full : Bool) (type : TypeExtension) : List Lexeme :=
  .name "extend" :: .name type.body.form.keyword ::
    type.body.lexemes full type.name type.directives

def DirectiveDefinition.lexemes (full : Bool) (directive : DirectiveDefinition) : List Lexeme :=
  descriptionLexemes directive.description ++ .name "directive" :: .punctuator .atSign ::
    (directive.name.lexemes ++ argumentDefinitionsLexemes directive.arguments ++
      (if directive.repeatable then [.name "repeatable"] else []) ++ .name "on" ::
        (optionalMark full .pipe ++ separatedLexemes .pipe Name.lexemes directive.locations))

def Definition.lexemes (full : Bool) : Definition → List Lexeme
  | .operation inner => inner.lexemes full
  | .fragment inner => inner.lexemes
  | .schema inner => inner.lexemes
  | .type inner => inner.lexemes full
  | .directive inner => inner.lexemes full
  | .schemaExtension inner => inner.lexemes
  | .typeExtension inner => inner.lexemes full

/-- The lexemes of a document without those that may be left out. -/
def Document.lexemes (document : Document) : List Lexeme :=
  document.definitions.flatMap (Definition.lexemes false)

end GraphQL

import GraphQL.Options
import GraphQL.Proofs.Spelling
import GraphQL.Tree.DirectiveLocation

/-!
The rules of the grammar that a tree can break. Each predicate takes the options of a parse
and, where nodes nest, how many levels may still open at its place. With `noLocation` a tree
that conforms has no locations.

How names, numbers and block strings have to look is not asked here: that is a rule about
the lexemes that spell a tree.
-/

namespace GraphQL

/-- Without locations there is none; otherwise any may stand. -/
def Options.allowsLoc (options : Options) (loc : Option Location) : Bool :=
  !options.noLocation || loc.isNone

/-- The words that are values of other kinds, and no enum values. -/
def isReservedValue (text : String) : Bool :=
  text = "true" || text = "false" || text = "null"

section
variable (options : Options)

def Name.conforms (name : Name) : Bool := options.allowsLoc name.loc

def Variable.conforms (reference : Variable) : Bool :=
  reference.name.conforms options && options.allowsLoc reference.loc

def StringValue.conforms (literal : StringValue) : Bool := options.allowsLoc literal.loc

def NamedType.conforms (type : NamedType) : Bool :=
  type.name.conforms options && options.allowsLoc type.loc

mutual

def Value.conforms (isConst : Bool) : (levels : Nat) → Value → Bool
  | 0, _ => false
  | _ + 1, .var reference => !isConst && reference.conforms options
  | _ + 1, .int _ loc => options.allowsLoc loc
  | _ + 1, .float _ loc => options.allowsLoc loc
  | _ + 1, .string literal => literal.conforms options
  | _ + 1, .boolean _ loc => options.allowsLoc loc
  | _ + 1, .null loc => options.allowsLoc loc
  | _ + 1, .enum name loc => !isReservedValue name && options.allowsLoc loc
  | levels + 1, .list items loc => itemsConform isConst levels items && options.allowsLoc loc
  | levels + 1, .object fields loc => fieldsConform isConst levels fields && options.allowsLoc loc

def itemsConform (isConst : Bool) (levels : Nat) : List Value → Bool
  | [] => true
  | item :: rest => item.conforms isConst levels && itemsConform isConst levels rest

def fieldsConform (isConst : Bool) (levels : Nat) : List ObjectField → Bool
  | [] => true
  | field :: rest => field.conforms isConst levels && fieldsConform isConst levels rest

def ObjectField.conforms (isConst : Bool) (levels : Nat) : ObjectField → Bool
  | ⟨name, value, loc⟩ =>
      name.conforms options && value.conforms isConst levels && options.allowsLoc loc

end

theorem itemsConform_eq (isConst : Bool) (levels : Nat) (items : List Value) :
    itemsConform options isConst levels items =
      items.all (·.conforms options isConst levels) := by
  induction items with
  | nil => rfl
  | cons item rest ih => rw [itemsConform, ih, List.all_cons]

theorem fieldsConform_eq (isConst : Bool) (levels : Nat) (fields : List ObjectField) :
    fieldsConform options isConst levels fields =
      fields.all (·.conforms options isConst levels) := by
  induction fields with
  | nil => rfl
  | cons field rest ih => rw [fieldsConform, ih, List.all_cons]

def Argument.conforms (isConst : Bool) (levels : Nat) (argument : Argument) : Bool :=
  argument.name.conforms options && argument.value.conforms options isConst levels &&
    options.allowsLoc argument.loc

def Directive.conforms (isConst : Bool) (levels : Nat) (directive : Directive) : Bool :=
  directive.name.conforms options &&
    directive.arguments.all (·.conforms options isConst levels) &&
    options.allowsLoc directive.loc

def directivesConform (isConst : Bool) (levels : Nat) (directives : List Directive) : Bool :=
  directives.all (·.conforms options isConst levels)

mutual

def TypeRef.conforms : (levels : Nat) → TypeRef → Bool
  | 0, _ => false
  | levels + 1, .nullable type => type.conforms levels
  | levels + 1, .nonNull type loc => type.conforms levels && options.allowsLoc loc

def NullableType.conforms (levels : Nat) : NullableType → Bool
  | .named type => type.conforms options
  | .list item loc => item.conforms levels && options.allowsLoc loc

end

def FragmentSpread.conforms (levels : Nat) (spread : FragmentSpread) : Bool :=
  spread.name.conforms options && spread.name.value != "on" &&
    directivesConform options false levels spread.directives && options.allowsLoc spread.loc

mutual

def Selection.conforms (levels : Nat) : Selection → Bool
  | .field field => field.conforms levels
  | .spread spread => spread.conforms options levels
  | .inline fragment => fragment.conforms levels

def Field.conforms (levels : Nat) : Field → Bool
  | ⟨responseAlias, name, arguments, directives, set, loc⟩ =>
      responseAlias.all (·.conforms options) && name.conforms options &&
        arguments.all (·.conforms options false levels) &&
        directivesConform options false levels directives &&
        optionalSetConforms levels set && options.allowsLoc loc

def InlineFragment.conforms (levels : Nat) : InlineFragment → Bool
  | ⟨typeCondition, directives, set, loc⟩ =>
      typeCondition.all (·.conforms options) &&
        directivesConform options false levels directives && set.conforms levels &&
        options.allowsLoc loc

def SelectionSet.conforms : (levels : Nat) → SelectionSet → Bool
  | 0, _ => false
  | levels + 1, ⟨selections, loc⟩ =>
      !selections.isEmpty && selectionsConform levels selections && options.allowsLoc loc

def optionalSetConforms (levels : Nat) : Option SelectionSet → Bool
  | none => true
  | some set => set.conforms levels

def selectionsConform (levels : Nat) : List Selection → Bool
  | [] => true
  | first :: rest => first.conforms levels && selectionsConform levels rest

end

theorem optionalSetConforms_eq (levels : Nat) (set : Option SelectionSet) :
    optionalSetConforms options levels set = set.all (·.conforms options levels) := by
  cases set <;> rfl

theorem selectionsConform_eq (levels : Nat) (selections : List Selection) :
    selectionsConform options levels selections = selections.all (·.conforms options levels) := by
  induction selections with
  | nil => rfl
  | cons first rest ih => rw [selectionsConform, ih, List.all_cons]

def VariableDefinition.conforms (levels : Nat) (definition : VariableDefinition) : Bool :=
  definition.declared.conforms options && definition.type.conforms options levels &&
    definition.defaultValue.all (·.conforms options true levels) &&
    directivesConform options true levels definition.directives &&
    options.allowsLoc definition.loc

def OperationDefinition.conforms (levels : Nat) (operation : OperationDefinition) : Bool :=
  operation.name.all (·.conforms options) &&
    operation.variableDefinitions.all (·.conforms options levels) &&
    directivesConform options false levels operation.directives &&
    operation.selectionSet.conforms options levels && options.allowsLoc operation.loc

def FragmentDefinition.conforms (levels : Nat) (fragment : FragmentDefinition) : Bool :=
  fragment.name.conforms options && fragment.name.value != "on" &&
    (options.fragmentVariables || fragment.variableDefinitions.isEmpty) &&
    fragment.variableDefinitions.all (·.conforms options levels) &&
    fragment.typeCondition.conforms options &&
    directivesConform options false levels fragment.directives &&
    fragment.selectionSet.conforms options levels && options.allowsLoc fragment.loc

def descriptionConforms (description : Option StringValue) : Bool :=
  description.all (·.conforms options)

def OperationTypeDefinition.conforms (definition : OperationTypeDefinition) : Bool :=
  definition.type.conforms options && options.allowsLoc definition.loc

def SchemaDefinition.conforms (levels : Nat) (schema : SchemaDefinition) : Bool :=
  descriptionConforms options schema.description &&
    directivesConform options true levels schema.directives &&
    !schema.operationTypes.isEmpty && schema.operationTypes.all (·.conforms options) &&
    options.allowsLoc schema.loc

def SchemaExtension.conforms (levels : Nat) (schema : SchemaExtension) : Bool :=
  directivesConform options true levels schema.directives &&
    schema.operationTypes.all (·.conforms options) &&
    !(schema.directives.isEmpty && schema.operationTypes.isEmpty) &&
    options.allowsLoc schema.loc

def InputValueDefinition.conforms (levels : Nat) (definition : InputValueDefinition) : Bool :=
  descriptionConforms options definition.description && definition.name.conforms options &&
    definition.type.conforms options levels &&
    definition.defaultValue.all (·.conforms options true levels) &&
    directivesConform options true levels definition.directives &&
    options.allowsLoc definition.loc

def FieldDefinition.conforms (levels : Nat) (field : FieldDefinition) : Bool :=
  descriptionConforms options field.description && field.name.conforms options &&
    field.arguments.all (·.conforms options levels) && field.type.conforms options levels &&
    directivesConform options true levels field.directives && options.allowsLoc field.loc

def EnumValueDefinition.conforms (levels : Nat) (value : EnumValueDefinition) : Bool :=
  descriptionConforms options value.description && value.name.conforms options &&
    !isReservedValue value.name.value && directivesConform options true levels value.directives &&
    options.allowsLoc value.loc

def TypeBody.conforms (levels : Nat) : TypeBody → Bool
  | .scalar => true
  | .object interfaces fields | .interface interfaces fields =>
      interfaces.all (·.conforms options) && fields.all (·.conforms options levels)
  | .union members => members.all (·.conforms options)
  | .enum values => values.all (·.conforms options levels)
  | .inputObject fields => fields.all (·.conforms options levels)

def TypeDefinition.conforms (levels : Nat) (type : TypeDefinition) : Bool :=
  descriptionConforms options type.description && type.name.conforms options &&
    directivesConform options true levels type.directives && type.body.conforms options levels &&
    options.allowsLoc type.loc

def TypeExtension.conforms (levels : Nat) (type : TypeExtension) : Bool :=
  type.name.conforms options && directivesConform options true levels type.directives &&
    type.body.conforms options levels && !(type.directives.isEmpty && type.body.isEmpty) &&
    options.allowsLoc type.loc

def DirectiveDefinition.conforms (levels : Nat) (directive : DirectiveDefinition) : Bool :=
  descriptionConforms options directive.description && directive.name.conforms options &&
    directive.arguments.all (·.conforms options levels) && !directive.locations.isEmpty &&
    (directive.locations.all fun place =>
      place.conforms options && (DirectiveLocation.ofText? place.value).isSome) &&
    options.allowsLoc directive.loc

def Definition.conforms (levels : Nat) : Definition → Bool
  | .operation inner => inner.conforms options levels
  | .fragment inner => inner.conforms options levels
  | .schema inner => inner.conforms options levels
  | .type inner => inner.conforms options levels
  | .directive inner => inner.conforms options levels
  | .schemaExtension inner => inner.conforms options levels
  | .typeExtension inner => inner.conforms options levels

def Document.conforms (document : Document) : Bool :=
  !document.definitions.isEmpty &&
    document.definitions.all (·.conforms options options.maxNestingDepth) &&
    options.allowsLoc document.loc

end

section
variable {options : Options} {levels : Nat} {set : SelectionSet}
  (conforms : set.conforms options levels = true)
include conforms

theorem SelectionSet.selections_conform :
    set.selections ≠ [] ∧ ∃ inner, set.selections.all (·.conforms options inner) = true := by
  cases levels with
  | zero => simp [SelectionSet.conforms] at conforms
  | succ levels =>
      obtain ⟨selections, loc⟩ := set
      simp only [SelectionSet.conforms, selectionsConform_eq, Bool.and_eq_true,
        Bool.not_eq_true', List.isEmpty_eq_false_iff] at conforms
      exact ⟨conforms.1.1, levels, conforms.1.2⟩

theorem SelectionSet.lexemes_of_conforms :
    set.lexemes = .punctuator .braceOpen ::
      (set.selections.flatMap Selection.lexemes ++ [.punctuator .braceClose]) := by
  have some' := (SelectionSet.selections_conform conforms).1
  obtain ⟨selections, loc⟩ := set
  rw [SelectionSet.lexemes, selectionsLexemes_eq,
    enclose_items (fun item _ => item.lexemes_ne_nil) some']

theorem SelectionSet.lexemes_ne_nil : set.lexemes ≠ [] := by
  rw [SelectionSet.lexemes_of_conforms conforms]
  exact List.cons_ne_nil _ _

end

theorem OperationDefinition.lexemes_ne_nil {options : Options} {levels : Nat} (full : Bool)
    {operation : OperationDefinition} (conforms : operation.conforms options levels = true) :
    operation.lexemes full ≠ [] := by
  simp only [OperationDefinition.conforms, Bool.and_eq_true] at conforms
  unfold OperationDefinition.lexemes
  split
  · exact SelectionSet.lexemes_ne_nil conforms.1.2
  · exact List.cons_ne_nil _ _

/-- A type that could go on with a part in braces and has none. -/
def TypeBody.lacksBraces : TypeBody → Bool
  | .scalar | .union _ => false
  | .object _ fields | .interface _ fields => fields.isEmpty
  | .enum values => values.isEmpty
  | .inputObject fields => fields.isEmpty

def Definition.lacksBraces : Definition → Bool
  | .type inner => inner.body.lacksBraces
  | .typeExtension inner => inner.body.lacksBraces
  | .schemaExtension inner => inner.operationTypes.isEmpty
  | .operation _ | .fragment _ | .schema _ | .directive _ => false

def Definition.isShorthand : Definition → Bool
  | .operation inner => inner.isShorthand
  | _ => false

/-- No definition that lacks its braces stands directly in front of a query that begins with
them. -/
def keptApart : List Definition → Bool
  | first :: second :: rest =>
      !(first.lacksBraces && second.isShorthand) && keptApart (second :: rest)
  | _ => true

end GraphQL

import GraphQL.Proofs.Relocate
import GraphQL.Proofs.Rules

/-!
Trees without their locations, and under other options. A tree that loses its locations keeps its
lexemes, and conforms under any options if it conformed where locations were allowed. Of the other
options, only the one about the variables of fragments matters to what conforms.
-/

namespace GraphQL

def Options.located (options : Options) : Options := { options with noLocation := false }

def Options.bare (options : Options) : Options := { options with noLocation := true }

def unlocated : Option Location → Option Location := fun _ => none

@[simp]
theorem unlocated_eq (loc : Option Location) : unlocated loc = none := rfl

theorem Options.located_eq {options : Options} (located : options.noLocation = false) :
    options.located = options := by
  cases options
  simp_all [Options.located]

@[simp]
theorem Options.allowsLoc_none (options : Options) : options.allowsLoc none = true := by
  simp [Options.allowsLoc]

@[simp]
theorem Options.allowsLoc_located (options : Options) (loc : Option Location) :
    options.located.allowsLoc loc = true := rfl

/-! Lexemes show no locations. -/

section
variable (change : Option Location → Option Location)

@[simp]
theorem Name.lexemes_relocate (name : Name) : (name.relocate change).lexemes = name.lexemes := rfl

@[simp]
theorem StringValue.lexeme_relocate (literal : StringValue) :
    (literal.relocate change).lexeme = literal.lexeme := rfl

@[simp]
theorem Variable.lexemes_relocate (reference : Variable) :
    (reference.relocate change).lexemes = reference.lexemes := rfl

mutual

@[simp]
theorem Value.lexemes_relocate : (value : Value) →
    (value.relocate change).lexemes = value.lexemes
  | .var _ | .int _ _ | .float _ _ | .string _ | .null _ | .enum _ _ => rfl
  | .boolean value _ => by cases value <;> rfl
  | .list items _ => by
      rw [Value.relocate, Value.lexemes, Value.lexemes, itemsLexemes_relocate items]
  | .object fields _ => by
      rw [Value.relocate, Value.lexemes, Value.lexemes, fieldsLexemes_relocate fields]

theorem itemsLexemes_relocate : (items : List Value) →
    itemsLexemes (relocateItems change items) = itemsLexemes items
  | [] => rfl
  | item :: rest => by
      rw [relocateItems, itemsLexemes, itemsLexemes, item.lexemes_relocate,
        itemsLexemes_relocate rest]

theorem fieldsLexemes_relocate : (fields : List ObjectField) →
    fieldsLexemes (relocateFields change fields) = fieldsLexemes fields
  | [] => rfl
  | ⟨name, value, _⟩ :: rest => by
      simp only [relocateFields, ObjectField.relocate, fieldsLexemes, ObjectField.lexemes,
        Name.lexemes_relocate, value.lexemes_relocate, fieldsLexemes_relocate rest]

end

@[simp]
theorem Argument.lexemes_relocate (argument : Argument) :
    (argument.relocate change).lexemes = argument.lexemes := by
  simp [Argument.relocate, Argument.lexemes]

@[simp]
theorem argumentsLexemes_relocate (arguments : List Argument) :
    argumentsLexemes (arguments.map (·.relocate change)) = argumentsLexemes arguments := by
  simp [argumentsLexemes, List.flatMap_map]

@[simp]
theorem Directive.lexemes_relocate (directive : Directive) :
    (directive.relocate change).lexemes = directive.lexemes := by
  simp [Directive.relocate, Directive.lexemes]

@[simp]
theorem directivesLexemes_relocate (directives : List Directive) :
    directivesLexemes (directives.map (·.relocate change)) = directivesLexemes directives := by
  simp [directivesLexemes, List.flatMap_map]

@[simp]
theorem NamedType.lexemes_relocate (type : NamedType) :
    (type.relocate change).lexemes = type.lexemes := rfl

mutual

@[simp]
theorem TypeRef.lexemes_relocate : (type : TypeRef) → (type.relocate change).lexemes = type.lexemes
  | .nullable type => by
      rw [TypeRef.relocate, TypeRef.lexemes, TypeRef.lexemes, type.lexemes_relocate]
  | .nonNull type _ => by
      rw [TypeRef.relocate, TypeRef.lexemes, TypeRef.lexemes, type.lexemes_relocate]

theorem NullableType.lexemes_relocate : (type : NullableType) →
    (type.relocate change).lexemes = type.lexemes
  | .named _ => rfl
  | .list item _ => by
      rw [NullableType.relocate, NullableType.lexemes, NullableType.lexemes, item.lexemes_relocate]

end

@[simp]
theorem defaultLexemes_relocate (value : Option Value) :
    defaultLexemes (value.map (·.relocate change)) = defaultLexemes value := by
  cases value <;> simp [defaultLexemes]

@[simp]
theorem FragmentSpread.lexemes_relocate (spread : FragmentSpread) :
    (spread.relocate change).lexemes = spread.lexemes := by
  simp [FragmentSpread.relocate, FragmentSpread.lexemes]

@[simp]
theorem aliasLexemes_relocate (key : Option Name) :
    aliasLexemes (key.map (·.relocate change)) = aliasLexemes key := by
  cases key <;> rfl

@[simp]
theorem conditionLexemes_relocate (type : Option NamedType) :
    conditionLexemes (type.map (·.relocate change)) = conditionLexemes type := by
  cases type <;> rfl

mutual

theorem Selection.lexemes_relocate : (selection : Selection) →
    (selection.relocate change).lexemes = selection.lexemes
  | .field field => by
      rw [Selection.relocate, Selection.lexemes, Selection.lexemes, field.lexemes_relocate]
  | .spread spread => by
      rw [Selection.relocate, Selection.lexemes, Selection.lexemes, spread.lexemes_relocate]
  | .inline fragment => by
      rw [Selection.relocate, Selection.lexemes, Selection.lexemes, fragment.lexemes_relocate]

theorem Field.lexemes_relocate : (field : Field) → (field.relocate change).lexemes = field.lexemes
  | ⟨_, _, _, _, set, _⟩ => by
      simp only [Field.relocate, Field.lexemes, aliasLexemes_relocate, Name.lexemes_relocate,
        argumentsLexemes_relocate, directivesLexemes_relocate, optionalSetLexemes_relocate set]

theorem InlineFragment.lexemes_relocate : (fragment : InlineFragment) →
    (fragment.relocate change).lexemes = fragment.lexemes
  | ⟨_, _, set, _⟩ => by
      simp only [InlineFragment.relocate, InlineFragment.lexemes, conditionLexemes_relocate,
        directivesLexemes_relocate, set.lexemes_relocate]

@[simp]
theorem SelectionSet.lexemes_relocate : (set : SelectionSet) →
    (set.relocate change).lexemes = set.lexemes
  | ⟨selections, _⟩ => by
      rw [SelectionSet.relocate, SelectionSet.lexemes, SelectionSet.lexemes,
        selectionsLexemes_relocate selections]

theorem optionalSetLexemes_relocate : (set : Option SelectionSet) →
    optionalSetLexemes (relocateOptional change set) = optionalSetLexemes set
  | none => rfl
  | some set => by
      rw [relocateOptional, optionalSetLexemes, optionalSetLexemes, set.lexemes_relocate]

theorem selectionsLexemes_relocate : (selections : List Selection) →
    selectionsLexemes (relocateSelections change selections) = selectionsLexemes selections
  | [] => rfl
  | first :: rest => by
      rw [relocateSelections, selectionsLexemes, selectionsLexemes, first.lexemes_relocate,
        selectionsLexemes_relocate rest]

end

@[simp]
theorem VariableDefinition.lexemes_relocate (definition : VariableDefinition) :
    (definition.relocate change).lexemes = definition.lexemes := by
  simp [VariableDefinition.relocate, VariableDefinition.lexemes]

@[simp]
theorem variableDefinitionsLexemes_relocate (definitions : List VariableDefinition) :
    variableDefinitionsLexemes (definitions.map (·.relocate change)) =
      variableDefinitionsLexemes definitions := by
  simp [variableDefinitionsLexemes, List.flatMap_map]

@[simp]
theorem OperationDefinition.isShorthand_relocate (operation : OperationDefinition) :
    (operation.relocate change).isShorthand = operation.isShorthand := by
  obtain ⟨sort, name, declared, directives, set, loc⟩ := operation
  simp [OperationDefinition.relocate, OperationDefinition.isShorthand]
  rfl

@[simp]
theorem OperationDefinition.lexemes_relocate (full : Bool) (operation : OperationDefinition) :
    (operation.relocate change).lexemes full = operation.lexemes full := by
  obtain ⟨sort, name, declared, directives, set, loc⟩ := operation
  unfold OperationDefinition.lexemes
  rw [isShorthand_relocate]
  cases name <;> simp [OperationDefinition.relocate, optionalLexemes]

@[simp]
theorem FragmentDefinition.lexemes_relocate (fragment : FragmentDefinition) :
    (fragment.relocate change).lexemes = fragment.lexemes := by
  simp [FragmentDefinition.relocate, FragmentDefinition.lexemes]

@[simp]
theorem descriptionLexemes_relocate (description : Option StringValue) :
    descriptionLexemes (description.map (·.relocate change)) = descriptionLexemes description := by
  cases description <;> rfl

@[simp]
theorem OperationTypeDefinition.lexemes_relocate (definition : OperationTypeDefinition) :
    (definition.relocate change).lexemes = definition.lexemes := rfl

theorem bracedLexemes_relocate {spell : α → List Lexeme} {relocate : α → α}
    (same : ∀ item, spell (relocate item) = spell item) (items : List α) :
    bracedLexemes spell (items.map relocate) = bracedLexemes spell items := by
  simp [bracedLexemes, List.flatMap_map, same]

@[simp]
theorem SchemaDefinition.lexemes_relocate (schema : SchemaDefinition) :
    (schema.relocate change).lexemes = schema.lexemes := by
  have types := bracedLexemes_relocate (OperationTypeDefinition.lexemes_relocate change)
  simp [SchemaDefinition.relocate, SchemaDefinition.lexemes, types]

@[simp]
theorem SchemaExtension.lexemes_relocate (schema : SchemaExtension) :
    (schema.relocate change).lexemes = schema.lexemes := by
  have types := bracedLexemes_relocate (OperationTypeDefinition.lexemes_relocate change)
  simp [SchemaExtension.relocate, SchemaExtension.lexemes, types]

@[simp]
theorem InputValueDefinition.lexemes_relocate (definition : InputValueDefinition) :
    (definition.relocate change).lexemes = definition.lexemes := by
  simp [InputValueDefinition.relocate, InputValueDefinition.lexemes]

@[simp]
theorem argumentDefinitionsLexemes_relocate (definitions : List InputValueDefinition) :
    argumentDefinitionsLexemes (definitions.map (·.relocate change)) =
      argumentDefinitionsLexemes definitions := by
  simp [argumentDefinitionsLexemes, List.flatMap_map]

@[simp]
theorem FieldDefinition.lexemes_relocate (field : FieldDefinition) :
    (field.relocate change).lexemes = field.lexemes := by
  simp [FieldDefinition.relocate, FieldDefinition.lexemes]

@[simp]
theorem EnumValueDefinition.lexemes_relocate (value : EnumValueDefinition) :
    (value.relocate change).lexemes = value.lexemes := by
  simp [EnumValueDefinition.relocate, EnumValueDefinition.lexemes]

theorem separatedLexemes_relocate {spell : α → List Lexeme} {relocate : α → α}
    (same : ∀ item, spell (relocate item) = spell item) (mark : Punctuator) (items : List α) :
    separatedLexemes mark spell (items.map relocate) = separatedLexemes mark spell items := by
  induction items with
  | nil => rfl
  | cons first rest ih =>
      cases rest with
      | nil => exact same first
      | cons second others =>
          simp only [List.map_cons, separatedLexemes, same] at ih ⊢
          rw [ih]

@[simp]
theorem interfacesLexemes_relocate (full : Bool) (interfaces : List NamedType) :
    interfacesLexemes full (interfaces.map (·.relocate change)) =
      interfacesLexemes full interfaces := by
  simp [interfacesLexemes, separatedLexemes_relocate (NamedType.lexemes_relocate change)]

@[simp]
theorem unionMembersLexemes_relocate (full : Bool) (members : List NamedType) :
    unionMembersLexemes full (members.map (·.relocate change)) =
      unionMembersLexemes full members := by
  simp [unionMembersLexemes, separatedLexemes_relocate (NamedType.lexemes_relocate change)]

theorem TypeBody.lexemes_relocate (full : Bool) (body : TypeBody) (name : Name)
    (directives : List Directive) :
    (body.relocate change).lexemes full (name.relocate change)
        (directives.map (·.relocate change)) =
      body.lexemes full name directives := by
  have fields := bracedLexemes_relocate (FieldDefinition.lexemes_relocate change)
  have values := bracedLexemes_relocate (EnumValueDefinition.lexemes_relocate change)
  have inputs := bracedLexemes_relocate (InputValueDefinition.lexemes_relocate change)
  cases body <;>
    simp [TypeBody.relocate, TypeBody.lexemes, TypeBody.interfacesLexemes, TypeBody.interfaces,
      TypeBody.membersLexemes, fields, values, inputs]

@[simp]
theorem TypeDefinition.lexemes_relocate (full : Bool) (type : TypeDefinition) :
    (type.relocate change).lexemes full = type.lexemes full := by
  simp [TypeDefinition.relocate, TypeDefinition.lexemes, TypeBody.form_relocate,
    TypeBody.lexemes_relocate]

@[simp]
theorem TypeExtension.lexemes_relocate (full : Bool) (type : TypeExtension) :
    (type.relocate change).lexemes full = type.lexemes full := by
  simp [TypeExtension.relocate, TypeExtension.lexemes, TypeBody.form_relocate,
    TypeBody.lexemes_relocate]

@[simp]
theorem DirectiveDefinition.lexemes_relocate (full : Bool) (directive : DirectiveDefinition) :
    (directive.relocate change).lexemes full = directive.lexemes full := by
  have places := separatedLexemes_relocate (Name.lexemes_relocate change)
  obtain ⟨description, name, arguments, repeatable, locations, loc⟩ := directive
  simp [DirectiveDefinition.relocate, DirectiveDefinition.lexemes, places]
  rfl

@[simp]
theorem Definition.lexemes_relocate (full : Bool) (definition : Definition) :
    (definition.relocate change).lexemes full = definition.lexemes full := by
  cases definition with
  | operation inner => exact inner.lexemes_relocate change full
  | fragment inner => exact inner.lexemes_relocate change
  | schema inner => exact inner.lexemes_relocate change
  | type inner => exact inner.lexemes_relocate change full
  | directive inner => exact inner.lexemes_relocate change full
  | schemaExtension inner => exact inner.lexemes_relocate change
  | typeExtension inner => exact inner.lexemes_relocate change full

@[simp]
theorem Definition.lacksBraces_relocate (definition : Definition) :
    (definition.relocate change).lacksBraces = definition.lacksBraces := by
  have ofBody (body : TypeBody) : (body.relocate change).lacksBraces = body.lacksBraces := by
    cases body <;> simp [TypeBody.relocate, TypeBody.lacksBraces]
  cases definition with
  | type inner => exact ofBody inner.body
  | typeExtension inner => exact ofBody inner.body
  | schemaExtension inner =>
      simp [Definition.relocate, SchemaExtension.relocate, Definition.lacksBraces]
  | _ => rfl

end

def Definition.fragmentVariables : Definition → List VariableDefinition
  | .fragment inner => inner.variableDefinitions
  | _ => []

/-- A change of the locations of nodes under which what conforms to some options, and only that,
comes to conform to others. -/
structure Transfer where
  change : Option Location → Option Location
  before : Options
  after : Options
  allows (loc : Option Location) : after.allowsLoc (change loc) = before.allowsLoc loc

attribute [simp] Transfer.allows

def Transfer.bare (options : Options) : Transfer where
  change := unlocated
  before := options.located
  after := options
  allows _ := options.allowsLoc_none

def Transfer.between (options other : Options) (same : other.noLocation = options.noLocation) :
    Transfer where
  change := id
  before := options
  after := other
  allows loc := by simp only [id, Options.allowsLoc, same]

/-! Rules ask the same of a node before and after its transfer. -/

section
variable (transfer : Transfer)

@[simp]
theorem Name.conforms_transfer (name : Name) :
    (name.relocate transfer.change).conforms transfer.after = name.conforms transfer.before := by
  simp [Name.relocate, Name.conforms]

@[simp]
theorem Variable.conforms_transfer (reference : Variable) :
    (reference.relocate transfer.change).conforms transfer.after =
      reference.conforms transfer.before := by
  simp [Variable.relocate, Variable.conforms]

@[simp]
theorem StringValue.conforms_transfer (literal : StringValue) :
    (literal.relocate transfer.change).conforms transfer.after =
      literal.conforms transfer.before := by
  simp [StringValue.relocate, StringValue.conforms]

@[simp]
theorem NamedType.conforms_transfer (type : NamedType) :
    (type.relocate transfer.change).conforms transfer.after = type.conforms transfer.before := by
  simp [NamedType.relocate, NamedType.conforms]

mutual

@[simp]
theorem Value.conforms_transfer (isConst : Bool) : (levels : Nat) → (value : Value) →
    (value.relocate transfer.change).conforms transfer.after isConst levels =
      value.conforms transfer.before isConst levels
  | 0, _ => by simp [Value.conforms]
  | _ + 1, .var reference => by simp [Value.relocate, Value.conforms]
  | _ + 1, .int _ _ | _ + 1, .float _ _ | _ + 1, .string _ | _ + 1, .boolean _ _
  | _ + 1, .null _ | _ + 1, .enum _ _ => by simp [Value.relocate, Value.conforms]
  | levels + 1, .list items _ => by
      simp [Value.relocate, Value.conforms, itemsConform_transfer isConst levels items]
  | levels + 1, .object fields _ => by
      simp [Value.relocate, Value.conforms, fieldsConform_transfer isConst levels fields]

theorem itemsConform_transfer (isConst : Bool) (levels : Nat) : (items : List Value) →
    itemsConform transfer.after isConst levels (relocateItems transfer.change items) =
      itemsConform transfer.before isConst levels items
  | [] => rfl
  | item :: rest => by
      rw [relocateItems, itemsConform, itemsConform, item.conforms_transfer,
        itemsConform_transfer isConst levels rest]

theorem fieldsConform_transfer (isConst : Bool) (levels : Nat) : (fields : List ObjectField) →
    fieldsConform transfer.after isConst levels (relocateFields transfer.change fields) =
      fieldsConform transfer.before isConst levels fields
  | [] => rfl
  | ⟨name, value, _⟩ :: rest => by
      simp [relocateFields, fieldsConform, ObjectField.relocate, ObjectField.conforms,
        value.conforms_transfer, fieldsConform_transfer isConst levels rest]

end

section
variable (isConst : Bool) (levels : Nat)

@[simp]
theorem Argument.conforms_transfer (argument : Argument) :
    (argument.relocate transfer.change).conforms transfer.after isConst levels =
      argument.conforms transfer.before isConst levels := by
  simp [Argument.relocate, Argument.conforms]

@[simp]
theorem Directive.conforms_transfer (directive : Directive) :
    (directive.relocate transfer.change).conforms transfer.after isConst levels =
      directive.conforms transfer.before isConst levels := by
  simp [Directive.relocate, Directive.conforms, Function.comp_def]

@[simp]
theorem directivesConform_transfer (directives : List Directive) :
    directivesConform transfer.after isConst levels (directives.map (·.relocate transfer.change)) =
      directivesConform transfer.before isConst levels directives := by
  simp [directivesConform, Function.comp_def]

end

mutual

@[simp]
theorem TypeRef.conforms_transfer : (levels : Nat) → (type : TypeRef) →
    (type.relocate transfer.change).conforms transfer.after levels =
      type.conforms transfer.before levels
  | 0, _ => by simp [TypeRef.conforms]
  | levels + 1, .nullable type => by
      simp [TypeRef.relocate, TypeRef.conforms, type.conforms_transfer levels]
  | levels + 1, .nonNull type _ => by
      simp [TypeRef.relocate, TypeRef.conforms, type.conforms_transfer levels]

theorem NullableType.conforms_transfer (levels : Nat) : (type : NullableType) →
    (type.relocate transfer.change).conforms transfer.after levels =
      type.conforms transfer.before levels
  | .named type => by simp [NullableType.relocate, NullableType.conforms]
  | .list item _ => by
      simp [NullableType.relocate, NullableType.conforms, item.conforms_transfer levels]

end

@[simp]
theorem FragmentSpread.conforms_transfer (levels : Nat) (spread : FragmentSpread) :
    (spread.relocate transfer.change).conforms transfer.after levels =
      spread.conforms transfer.before levels := by
  simp [FragmentSpread.relocate, FragmentSpread.conforms]
  rfl

mutual

theorem Selection.conforms_transfer (levels : Nat) : (selection : Selection) →
    (selection.relocate transfer.change).conforms transfer.after levels =
      selection.conforms transfer.before levels
  | .field field => by
      rw [Selection.relocate, Selection.conforms, Selection.conforms, field.conforms_transfer]
  | .spread spread => by
      rw [Selection.relocate, Selection.conforms, Selection.conforms, spread.conforms_transfer]
  | .inline fragment => by
      rw [Selection.relocate, Selection.conforms, Selection.conforms, fragment.conforms_transfer]

theorem Field.conforms_transfer (levels : Nat) : (field : Field) →
    (field.relocate transfer.change).conforms transfer.after levels =
      field.conforms transfer.before levels
  | ⟨_, _, _, _, set, _⟩ => by
      simp [Field.relocate, Field.conforms, optionalSetConforms_transfer levels set,
        Option.all_map, Function.comp_def]

theorem InlineFragment.conforms_transfer (levels : Nat) : (fragment : InlineFragment) →
    (fragment.relocate transfer.change).conforms transfer.after levels =
      fragment.conforms transfer.before levels
  | ⟨_, _, set, _⟩ => by
      simp [InlineFragment.relocate, InlineFragment.conforms, set.conforms_transfer levels,
        Option.all_map]

@[simp]
theorem SelectionSet.conforms_transfer : (levels : Nat) → (set : SelectionSet) →
    (set.relocate transfer.change).conforms transfer.after levels =
      set.conforms transfer.before levels
  | 0, _ => by simp [SelectionSet.conforms]
  | levels + 1, ⟨selections, _⟩ => by
      have nonempty : (relocateSelections transfer.change selections).isEmpty =
        selections.isEmpty := by
        cases selections <;> rfl
      simp [SelectionSet.relocate, SelectionSet.conforms, nonempty,
        selectionsConform_transfer levels selections]

theorem optionalSetConforms_transfer (levels : Nat) : (set : Option SelectionSet) →
    optionalSetConforms transfer.after levels (relocateOptional transfer.change set) =
      optionalSetConforms transfer.before levels set
  | none => rfl
  | some set => by
      rw [relocateOptional, optionalSetConforms, optionalSetConforms, set.conforms_transfer]

theorem selectionsConform_transfer (levels : Nat) : (selections : List Selection) →
    selectionsConform transfer.after levels (relocateSelections transfer.change selections) =
      selectionsConform transfer.before levels selections
  | [] => rfl
  | first :: rest => by
      rw [relocateSelections, selectionsConform, selectionsConform, first.conforms_transfer,
        selectionsConform_transfer levels rest]

end

section
variable (levels : Nat)

@[simp]
theorem VariableDefinition.conforms_transfer (definition : VariableDefinition) :
    (definition.relocate transfer.change).conforms transfer.after levels =
      definition.conforms transfer.before levels := by
  simp [VariableDefinition.relocate, VariableDefinition.conforms, Option.all_map]

@[simp]
theorem OperationDefinition.conforms_transfer (operation : OperationDefinition) :
    (operation.relocate transfer.change).conforms transfer.after levels =
      operation.conforms transfer.before levels := by
  simp [OperationDefinition.relocate, OperationDefinition.conforms, Option.all_map,
    Function.comp_def]

theorem FragmentDefinition.conforms_transfer (fragment : FragmentDefinition)
    (declares : transfer.after.fragmentVariables = transfer.before.fragmentVariables ∨
      fragment.variableDefinitions = []) :
    (fragment.relocate transfer.change).conforms transfer.after levels =
      fragment.conforms transfer.before levels := by
  have allowed : (transfer.after.fragmentVariables || fragment.variableDefinitions.isEmpty) =
      (transfer.before.fragmentVariables || fragment.variableDefinitions.isEmpty) := by
    rcases declares with same | none
    · rw [same]
    · simp [none]
  simp [FragmentDefinition.relocate, FragmentDefinition.conforms, Function.comp_def, allowed]
  rfl

@[simp]
theorem descriptionConforms_transfer (description : Option StringValue) :
    descriptionConforms transfer.after (description.map (·.relocate transfer.change)) =
      descriptionConforms transfer.before description := by
  simp [descriptionConforms, Option.all_map]

@[simp]
theorem OperationTypeDefinition.conforms_transfer (definition : OperationTypeDefinition) :
    (definition.relocate transfer.change).conforms transfer.after =
      definition.conforms transfer.before := by
  simp [OperationTypeDefinition.relocate, OperationTypeDefinition.conforms]

@[simp]
theorem SchemaDefinition.conforms_transfer (schema : SchemaDefinition) :
    (schema.relocate transfer.change).conforms transfer.after levels =
      schema.conforms transfer.before levels := by
  simp [SchemaDefinition.relocate, SchemaDefinition.conforms, Function.comp_def]

@[simp]
theorem SchemaExtension.conforms_transfer (schema : SchemaExtension) :
    (schema.relocate transfer.change).conforms transfer.after levels =
      schema.conforms transfer.before levels := by
  simp [SchemaExtension.relocate, SchemaExtension.conforms, Function.comp_def]

@[simp]
theorem InputValueDefinition.conforms_transfer (definition : InputValueDefinition) :
    (definition.relocate transfer.change).conforms transfer.after levels =
      definition.conforms transfer.before levels := by
  simp [InputValueDefinition.relocate, InputValueDefinition.conforms, Option.all_map]

@[simp]
theorem FieldDefinition.conforms_transfer (field : FieldDefinition) :
    (field.relocate transfer.change).conforms transfer.after levels =
      field.conforms transfer.before levels := by
  simp [FieldDefinition.relocate, FieldDefinition.conforms, Function.comp_def]

@[simp]
theorem EnumValueDefinition.conforms_transfer (value : EnumValueDefinition) :
    (value.relocate transfer.change).conforms transfer.after levels =
      value.conforms transfer.before levels := by
  simp [EnumValueDefinition.relocate, EnumValueDefinition.conforms]
  rfl

@[simp]
theorem TypeBody.conforms_transfer (body : TypeBody) :
    (body.relocate transfer.change).conforms transfer.after levels =
      body.conforms transfer.before levels := by
  cases body <;> simp [TypeBody.relocate, TypeBody.conforms, Function.comp_def]

@[simp]
theorem TypeDefinition.conforms_transfer (type : TypeDefinition) :
    (type.relocate transfer.change).conforms transfer.after levels =
      type.conforms transfer.before levels := by
  simp [TypeDefinition.relocate, TypeDefinition.conforms]

@[simp]
theorem TypeExtension.conforms_transfer (type : TypeExtension) :
    (type.relocate transfer.change).conforms transfer.after levels =
      type.conforms transfer.before levels := by
  simp [TypeExtension.relocate, TypeExtension.conforms, TypeBody.isEmpty_relocate]

@[simp]
theorem DirectiveDefinition.conforms_transfer (directive : DirectiveDefinition) :
    (directive.relocate transfer.change).conforms transfer.after levels =
      directive.conforms transfer.before levels := by
  simp [DirectiveDefinition.relocate, DirectiveDefinition.conforms, Function.comp_def]
  rfl

theorem Definition.conforms_transfer (definition : Definition)
    (declares : transfer.after.fragmentVariables = transfer.before.fragmentVariables ∨
      definition.fragmentVariables = []) :
    (definition.relocate transfer.change).conforms transfer.after levels =
      definition.conforms transfer.before levels := by
  cases definition with
  | fragment fragment => exact fragment.conforms_transfer transfer levels declares
  | _ => simp [Definition.relocate, Definition.conforms]

end

end

end GraphQL

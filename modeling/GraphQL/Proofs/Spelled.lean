import GraphQL.Proofs.Spelling

/-!
Trees are spelled without the marks around a text and without comments.
-/

namespace GraphQL

def Lexeme.isSpelled : Lexeme → Bool
  | sof | eof | comment _ => false
  | punctuator _ | name _ | int _ | float _ | string _ | blockString _ => true

theorem Lexeme.ne_eof {lexeme : Lexeme} (spelled : lexeme.isSpelled = true) : lexeme ≠ .eof := by
  rintro rfl
  cases spelled

def AllSpelled (lexemes : List Lexeme) : Prop := lexemes.all Lexeme.isSpelled = true

@[simp] theorem allSpelled_nil : AllSpelled [] := rfl

@[simp] theorem allSpelled_cons {found : Lexeme} {rest : List Lexeme} :
    AllSpelled (found :: rest) ↔ found.isSpelled = true ∧ AllSpelled rest := by
  simp [AllSpelled]

@[simp] theorem allSpelled_append {left right : List Lexeme} :
    AllSpelled (left ++ right) ↔ AllSpelled left ∧ AllSpelled right := by
  simp [AllSpelled]

theorem allSpelled_flatMap {spell : α → List Lexeme} (each : ∀ item, AllSpelled (spell item))
    (items : List α) : AllSpelled (items.flatMap spell) := by
  induction items with
  | nil => rfl
  | cons item rest ih => simp [each item, ih]

theorem allSpelled_enclose {inner : List Lexeme} (spelled : AllSpelled inner)
    (opening closing : Punctuator) : AllSpelled (enclose opening inner closing) := by
  unfold enclose
  split
  · rfl
  · simp [spelled, Lexeme.isSpelled]

theorem allSpelled_optional {spell : α → List Lexeme} (each : ∀ item, AllSpelled (spell item))
    (part : Option α) : AllSpelled (optionalLexemes spell part) := by
  cases part with
  | none => rfl
  | some item => exact each item

theorem allSpelled_separated {mark : Punctuator} {spell : α → List Lexeme}
    (each : ∀ item, AllSpelled (spell item)) (items : List α) :
    AllSpelled (separatedLexemes mark spell items) := by
  induction items using separatedLexemes.induct with
  | case1 => rfl
  | case2 item => exact each item
  | case3 item next rest ih => simp [separatedLexemes, each item, ih, Lexeme.isSpelled]

theorem allSpelled_optionalMark (full : Bool) (mark : Punctuator) :
    AllSpelled (optionalMark full mark) := by
  cases full <;> rfl

theorem Name.spelled (name : Name) : AllSpelled name.lexemes := rfl

theorem StringValue.spelled (literal : StringValue) : literal.lexeme.isSpelled = true := by
  unfold StringValue.lexeme
  split <;> rfl

mutual

theorem Value.spelled : (value : Value) → AllSpelled value.lexemes
  | .var _ | .int _ _ | .float _ _ | .boolean true _ | .boolean false _ | .null _ | .enum _ _ => rfl
  | .string literal => by simp [Value.lexemes, literal.spelled]
  | .list items _ => by simp [Value.lexemes, items_spelled items, Lexeme.isSpelled]
  | .object fields _ => by simp [Value.lexemes, fields_spelled fields, Lexeme.isSpelled]

theorem items_spelled : (items : List Value) → AllSpelled (itemsLexemes items)
  | [] => rfl
  | item :: rest => by simp [itemsLexemes, item.spelled, items_spelled rest]

theorem fields_spelled : (fields : List ObjectField) → AllSpelled (fieldsLexemes fields)
  | [] => rfl
  | field :: rest => by simp [fieldsLexemes, field.spelled, fields_spelled rest]

theorem ObjectField.spelled : (field : ObjectField) → AllSpelled field.lexemes
  | ⟨name, value, _⟩ => by
      simp [ObjectField.lexemes, name.spelled, value.spelled, Lexeme.isSpelled]

end

theorem Argument.spelled (argument : Argument) : AllSpelled argument.lexemes := by
  simp [Argument.lexemes, Name.spelled, Value.spelled, Lexeme.isSpelled]

theorem arguments_spelled (arguments : List Argument) : AllSpelled (argumentsLexemes arguments) :=
  allSpelled_enclose (allSpelled_flatMap Argument.spelled arguments) _ _

theorem Directive.spelled (directive : Directive) : AllSpelled directive.lexemes := by
  simp [Directive.lexemes, Name.spelled, arguments_spelled, Lexeme.isSpelled]

theorem directives_spelled (directives : List Directive) :
    AllSpelled (directivesLexemes directives) :=
  allSpelled_flatMap Directive.spelled directives

theorem NamedType.spelled (type : NamedType) : AllSpelled type.lexemes := rfl

mutual

theorem TypeRef.spelled : (type : TypeRef) → AllSpelled type.lexemes
  | .nullable type => type.spelled
  | .nonNull type _ => by simp [TypeRef.lexemes, type.spelled, Lexeme.isSpelled]

theorem NullableType.spelled : (type : NullableType) → AllSpelled type.lexemes
  | .named type => type.spelled
  | .list item _ => by simp [NullableType.lexemes, item.spelled, Lexeme.isSpelled]

end

theorem default_spelled (value : Option Value) : AllSpelled (defaultLexemes value) := by
  cases value with
  | none => rfl
  | some value => simp [defaultLexemes, value.spelled, Lexeme.isSpelled]

theorem FragmentSpread.spelled (spread : FragmentSpread) : AllSpelled spread.lexemes := by
  simp [FragmentSpread.lexemes, Name.spelled, directives_spelled, Lexeme.isSpelled]

theorem alias_spelled (key : Option Name) : AllSpelled (aliasLexemes key) := by
  cases key <;> rfl

theorem condition_spelled (type : Option NamedType) : AllSpelled (conditionLexemes type) := by
  cases type <;> rfl

mutual

theorem Selection.spelled : (selection : Selection) → AllSpelled selection.lexemes
  | .field field => by rw [Selection.lexemes]; exact field.spelled
  | .spread spread => spread.spelled
  | .inline fragment => by rw [Selection.lexemes]; exact fragment.spelled

theorem Field.spelled : (field : Field) → AllSpelled field.lexemes
  | ⟨responseAlias, name, arguments, directives, set, _⟩ => by
      simp [Field.lexemes, alias_spelled responseAlias, name.spelled, arguments_spelled arguments,
        directives_spelled directives, optionalSet_spelled set]

theorem InlineFragment.spelled : (fragment : InlineFragment) → AllSpelled fragment.lexemes
  | ⟨typeCondition, directives, set, _⟩ => by
      simp [InlineFragment.lexemes, condition_spelled typeCondition,
        directives_spelled directives, set.spelled, Lexeme.isSpelled]

theorem SelectionSet.spelled : (set : SelectionSet) → AllSpelled set.lexemes
  | ⟨selections, _⟩ => by
      rw [SelectionSet.lexemes]
      exact allSpelled_enclose (selections_spelled selections) _ _

theorem optionalSet_spelled : (set : Option SelectionSet) → AllSpelled (optionalSetLexemes set)
  | none => rfl
  | some set => by rw [optionalSetLexemes]; exact set.spelled

theorem selections_spelled : (selections : List Selection) →
    AllSpelled (selectionsLexemes selections)
  | [] => rfl
  | first :: rest => by simp [selectionsLexemes, first.spelled, selections_spelled rest]

end

theorem VariableDefinition.spelled (definition : VariableDefinition) :
    AllSpelled definition.lexemes := by
  simp [VariableDefinition.lexemes, Variable.lexemes, Name.spelled, TypeRef.spelled,
    default_spelled, directives_spelled, Lexeme.isSpelled]

theorem variableDefinitions_spelled (definitions : List VariableDefinition) :
    AllSpelled (variableDefinitionsLexemes definitions) :=
  allSpelled_enclose (allSpelled_flatMap VariableDefinition.spelled definitions) _ _

theorem OperationDefinition.spelled (full : Bool) (operation : OperationDefinition) :
    AllSpelled (operation.lexemes full) := by
  unfold OperationDefinition.lexemes
  split
  · exact operation.selectionSet.spelled
  · simp [allSpelled_optional Name.spelled, variableDefinitions_spelled, directives_spelled,
      SelectionSet.spelled, Lexeme.isSpelled]

theorem FragmentDefinition.spelled (fragment : FragmentDefinition) :
    AllSpelled fragment.lexemes := by
  simp [FragmentDefinition.lexemes, Name.spelled, variableDefinitions_spelled, NamedType.spelled,
    directives_spelled, SelectionSet.spelled, Lexeme.isSpelled]

theorem description_spelled (description : Option StringValue) :
    AllSpelled (descriptionLexemes description) := by
  cases description with
  | none => rfl
  | some literal => simp [descriptionLexemes, literal.spelled]

theorem OperationTypeDefinition.spelled (definition : OperationTypeDefinition) :
    AllSpelled definition.lexemes := rfl

theorem braced_spelled {spell : α → List Lexeme} (each : ∀ item, AllSpelled (spell item))
    (items : List α) : AllSpelled (bracedLexemes spell items) :=
  allSpelled_enclose (allSpelled_flatMap each items) _ _

theorem SchemaDefinition.spelled (schema : SchemaDefinition) : AllSpelled schema.lexemes := by
  simp [SchemaDefinition.lexemes, description_spelled, directives_spelled,
    braced_spelled OperationTypeDefinition.spelled, Lexeme.isSpelled]

theorem SchemaExtension.spelled (schema : SchemaExtension) : AllSpelled schema.lexemes := by
  simp [SchemaExtension.lexemes, directives_spelled,
    braced_spelled OperationTypeDefinition.spelled, Lexeme.isSpelled]

theorem InputValueDefinition.spelled (definition : InputValueDefinition) :
    AllSpelled definition.lexemes := by
  simp [InputValueDefinition.lexemes, description_spelled, Name.spelled, TypeRef.spelled,
    default_spelled, directives_spelled, Lexeme.isSpelled]

theorem argumentDefinitions_spelled (definitions : List InputValueDefinition) :
    AllSpelled (argumentDefinitionsLexemes definitions) :=
  allSpelled_enclose (allSpelled_flatMap InputValueDefinition.spelled definitions) _ _

theorem FieldDefinition.spelled (field : FieldDefinition) : AllSpelled field.lexemes := by
  simp [FieldDefinition.lexemes, description_spelled, Name.spelled, argumentDefinitions_spelled,
    TypeRef.spelled, directives_spelled, Lexeme.isSpelled]

theorem EnumValueDefinition.spelled (value : EnumValueDefinition) : AllSpelled value.lexemes := by
  simp [EnumValueDefinition.lexemes, description_spelled, Name.spelled, directives_spelled]

theorem interfaces_spelled (full : Bool) (interfaces : List NamedType) :
    AllSpelled (interfacesLexemes full interfaces) := by
  unfold interfacesLexemes
  split
  · rfl
  · simp [allSpelled_optionalMark, allSpelled_separated NamedType.spelled, Lexeme.isSpelled]

theorem unionMembers_spelled (full : Bool) (members : List NamedType) :
    AllSpelled (unionMembersLexemes full members) := by
  unfold unionMembersLexemes
  split
  · rfl
  · simp [allSpelled_optionalMark, allSpelled_separated NamedType.spelled, Lexeme.isSpelled]

theorem TypeBody.spelled (full : Bool) (body : TypeBody) (name : Name)
    (directives : List Directive) : AllSpelled (body.lexemes full name directives) := by
  have members : AllSpelled (body.membersLexemes full) := by
    cases body with
    | scalar => rfl
    | object interfaces fields | interface interfaces fields =>
        exact braced_spelled FieldDefinition.spelled fields
    | union members => exact unionMembers_spelled full members
    | enum values => exact braced_spelled EnumValueDefinition.spelled values
    | inputObject fields => exact braced_spelled InputValueDefinition.spelled fields
  simp [TypeBody.lexemes, TypeBody.interfacesLexemes, name.spelled, interfaces_spelled,
    directives_spelled, members]

theorem TypeDefinition.spelled (full : Bool) (type : TypeDefinition) :
    AllSpelled (type.lexemes full) := by
  simp [TypeDefinition.lexemes, description_spelled, TypeBody.spelled, Lexeme.isSpelled]

theorem TypeExtension.spelled (full : Bool) (type : TypeExtension) :
    AllSpelled (type.lexemes full) := by
  simp [TypeExtension.lexemes, TypeBody.spelled, Lexeme.isSpelled]

theorem DirectiveDefinition.spelled (full : Bool) (directive : DirectiveDefinition) :
    AllSpelled (directive.lexemes full) := by
  have repeats : AllSpelled (if directive.repeatable then [.name "repeatable"] else []) := by
    split <;> rfl
  simp [DirectiveDefinition.lexemes, description_spelled, Name.spelled,
    argumentDefinitions_spelled, repeats, allSpelled_optionalMark,
    allSpelled_separated Name.spelled, Lexeme.isSpelled]

theorem Definition.spelled (full : Bool) (definition : Definition) :
    AllSpelled (definition.lexemes full) := by
  cases definition with
  | operation inner => exact inner.spelled full
  | fragment inner => exact inner.spelled
  | schema inner => exact inner.spelled
  | type inner => exact inner.spelled full
  | directive inner => exact inner.spelled full
  | schemaExtension inner => exact inner.spelled
  | typeExtension inner => exact inner.spelled full

end GraphQL

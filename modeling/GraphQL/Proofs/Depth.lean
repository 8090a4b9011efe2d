import GraphQL.Proofs.Rules

/-!
How deeply a tree nests. Selection sets, values and type references open a level each, and what
counts is how many of them enclose one another. Among the trees that follow the rules at all,
those that follow them with so many levels are the ones that are no deeper.
-/

namespace GraphQL

def deepest (depth : α → Nat) : List α → Nat
  | [] => 0
  | first :: rest => max (depth first) (deepest depth rest)

mutual

/-- A value counts, whether it holds others or not. -/
def Value.depth : Value → Nat
  | .list items _ => itemsDepth items + 1
  | .object fields _ => fieldsDepth fields + 1
  | .var _ | .int _ _ | .float _ _ | .string _ | .boolean _ _ | .null _ | .enum _ _ => 1

def itemsDepth : List Value → Nat
  | [] => 0
  | item :: rest => max item.depth (itemsDepth rest)

def fieldsDepth : List ObjectField → Nat
  | [] => 0
  | field :: rest => max field.depth (fieldsDepth rest)

def ObjectField.depth : ObjectField → Nat
  | ⟨_, value, _⟩ => value.depth

end

def Argument.depth (argument : Argument) : Nat := argument.value.depth

def Directive.depth (directive : Directive) : Nat := deepest Argument.depth directive.arguments

def directivesDepth (directives : List Directive) : Nat := deepest Directive.depth directives

mutual

def TypeRef.depth : TypeRef → Nat
  | .nullable type | .nonNull type _ => type.depth

def NullableType.depth : NullableType → Nat
  | .named _ => 1
  | .list item _ => item.depth + 1

end

def defaultDepth : Option Value → Nat
  | none => 0
  | some value => value.depth

def FragmentSpread.depth (spread : FragmentSpread) : Nat := directivesDepth spread.directives

mutual

def Selection.depth : Selection → Nat
  | .field field => field.depth
  | .spread spread => spread.depth
  | .inline fragment => fragment.depth

def Field.depth : Field → Nat
  | ⟨_, _, arguments, directives, set, _⟩ =>
      max (deepest Argument.depth arguments) (max (directivesDepth directives)
        (optionalSetDepth set))

def InlineFragment.depth : InlineFragment → Nat
  | ⟨_, directives, set, _⟩ => max (directivesDepth directives) set.depth

def SelectionSet.depth : SelectionSet → Nat
  | ⟨selections, _⟩ => selectionsDepth selections + 1

def optionalSetDepth : Option SelectionSet → Nat
  | none => 0
  | some set => set.depth

def selectionsDepth : List Selection → Nat
  | [] => 0
  | first :: rest => max first.depth (selectionsDepth rest)

end

def VariableDefinition.depth (definition : VariableDefinition) : Nat :=
  max definition.type.depth
    (max (defaultDepth definition.defaultValue) (directivesDepth definition.directives))

def OperationDefinition.depth (operation : OperationDefinition) : Nat :=
  max (deepest VariableDefinition.depth operation.variableDefinitions)
    (max (directivesDepth operation.directives) operation.selectionSet.depth)

def FragmentDefinition.depth (fragment : FragmentDefinition) : Nat :=
  max (deepest VariableDefinition.depth fragment.variableDefinitions)
    (max (directivesDepth fragment.directives) fragment.selectionSet.depth)

def SchemaDefinition.depth (schema : SchemaDefinition) : Nat := directivesDepth schema.directives

def SchemaExtension.depth (schema : SchemaExtension) : Nat := directivesDepth schema.directives

def InputValueDefinition.depth (definition : InputValueDefinition) : Nat :=
  max definition.type.depth
    (max (defaultDepth definition.defaultValue) (directivesDepth definition.directives))

def FieldDefinition.depth (field : FieldDefinition) : Nat :=
  max (deepest InputValueDefinition.depth field.arguments)
    (max field.type.depth (directivesDepth field.directives))

def EnumValueDefinition.depth (value : EnumValueDefinition) : Nat :=
  directivesDepth value.directives

def TypeBody.depth : TypeBody → Nat
  | .scalar | .union _ => 0
  | .object _ fields | .interface _ fields => deepest FieldDefinition.depth fields
  | .enum values => deepest EnumValueDefinition.depth values
  | .inputObject fields => deepest InputValueDefinition.depth fields

def TypeDefinition.depth (type : TypeDefinition) : Nat :=
  max (directivesDepth type.directives) type.body.depth

def TypeExtension.depth (type : TypeExtension) : Nat :=
  max (directivesDepth type.directives) type.body.depth

def DirectiveDefinition.depth (directive : DirectiveDefinition) : Nat :=
  deepest InputValueDefinition.depth directive.arguments

def Definition.depth : Definition → Nat
  | .operation inner => inner.depth
  | .fragment inner => inner.depth
  | .schema inner => inner.depth
  | .type inner => inner.depth
  | .directive inner => inner.depth
  | .schemaExtension inner => inner.depth
  | .typeExtension inner => inner.depth

def Document.depth (document : Document) : Nat := deepest Definition.depth document.definitions

theorem Value.depth_pos (value : Value) : 0 < value.depth := by
  cases value <;> simp [Value.depth]

theorem TypeRef.depth_pos : (type : TypeRef) → 0 < type.depth
  | .nullable (.named _) | .nonNull (.named _) _ => Nat.one_pos
  | .nullable (.list _ _) | .nonNull (.list _ _) _ => Nat.succ_pos _

theorem SelectionSet.depth_pos (set : SelectionSet) : 0 < set.depth := by
  cases set
  exact Nat.succ_pos _

/-- Of what conforms with some number of levels, `depth` tells the numbers that are enough. -/
def Measures (depth : α → Nat) (conforms : Nat → α → Bool) : Prop :=
  ∀ ⦃m n : Nat⦄ (item : α), conforms m item = true → (conforms n item = true ↔ depth item ≤ n)

theorem Measures.listed {depth : α → Nat} {conforms : Nat → α → Bool}
    (measures : Measures depth conforms) :
    Measures (deepest depth) fun n items => items.all (conforms n) := by
  intro m n items conform
  induction items with
  | nil => simp [deepest]
  | cons first rest ih =>
      simp only [List.all_cons, Bool.and_eq_true] at conform ⊢
      rw [measures first conform.1, ih conform.2, deepest, Nat.max_le]

theorem measures_default {conforms : Nat → Value → Bool}
    (measures : Measures Value.depth conforms) :
    Measures defaultDepth fun n value => value.all (conforms n) := by
  intro m n value conform
  cases value with
  | none => simp [defaultDepth]
  | some value => exact measures value conform

section
variable (options : Options)

mutual

theorem Value.conforms_iff (isConst : Bool) : {m n : Nat} → (value : Value) →
    value.conforms options isConst m = true →
    (value.conforms options isConst n = true ↔ value.depth ≤ n)
  | 0, _, _, conforms => by simp [Value.conforms] at conforms
  | _ + 1, 0, value, _ => by
      have positive := value.depth_pos
      simp only [Value.conforms, Bool.false_eq_true, false_iff]
      omega
  | _ + 1, _ + 1, .var _, conforms | _ + 1, _ + 1, .int _ _, conforms
  | _ + 1, _ + 1, .float _ _, conforms | _ + 1, _ + 1, .string _, conforms
  | _ + 1, _ + 1, .boolean _ _, conforms | _ + 1, _ + 1, .null _, conforms
  | _ + 1, _ + 1, .enum _ _, conforms =>
      iff_of_true conforms (by simp [Value.depth])
  | _ + 1, _ + 1, .list items _, conforms => by
      simp only [Value.conforms, Bool.and_eq_true] at conforms ⊢
      rw [itemsConform_iff isConst items conforms.1, Value.depth, Nat.add_le_add_iff_right]
      exact and_iff_left conforms.2
  | _ + 1, _ + 1, .object fields _, conforms => by
      simp only [Value.conforms, Bool.and_eq_true] at conforms ⊢
      rw [fieldsConform_iff isConst fields conforms.1, Value.depth, Nat.add_le_add_iff_right]
      exact and_iff_left conforms.2

theorem itemsConform_iff (isConst : Bool) : {m n : Nat} → (items : List Value) →
    itemsConform options isConst m items = true →
    (itemsConform options isConst n items = true ↔ itemsDepth items ≤ n)
  | _, _, [], _ => by simp [itemsConform, itemsDepth]
  | _, _, item :: rest, conform => by
      simp only [itemsConform, Bool.and_eq_true] at conform ⊢
      rw [item.conforms_iff isConst conform.1, itemsConform_iff isConst rest conform.2,
        itemsDepth, Nat.max_le]

theorem fieldsConform_iff (isConst : Bool) : {m n : Nat} → (fields : List ObjectField) →
    fieldsConform options isConst m fields = true →
    (fieldsConform options isConst n fields = true ↔ fieldsDepth fields ≤ n)
  | _, _, [], _ => by simp [fieldsConform, fieldsDepth]
  | _, _, ⟨_, value, _⟩ :: rest, conform => by
      simp only [fieldsConform, ObjectField.conforms, Bool.and_eq_true] at conform ⊢
      rw [value.conforms_iff isConst conform.1.1.2, fieldsConform_iff isConst rest conform.2,
        fieldsDepth, ObjectField.depth, Nat.max_le]
      simp only [conform.1.1.1, conform.1.2, true_and, and_true]

end

theorem value_measures (isConst : Bool) :
    Measures Value.depth fun n value => value.conforms options isConst n :=
  fun _ _ value => value.conforms_iff options isConst

theorem argument_measures (isConst : Bool) :
    Measures Argument.depth fun n argument => argument.conforms options isConst n := by
  intro m n argument conforms
  simp only [Argument.conforms, Bool.and_eq_true] at conforms ⊢
  rw [argument.value.conforms_iff options isConst conforms.1.2]
  simp only [conforms.1.1, conforms.2, true_and, and_true, Argument.depth]

theorem directive_measures (isConst : Bool) :
    Measures Directive.depth fun n directive => directive.conforms options isConst n := by
  intro m n directive conforms
  simp only [Directive.conforms, Bool.and_eq_true] at conforms ⊢
  rw [(argument_measures options isConst).listed directive.arguments conforms.1.2]
  simp only [conforms.1.1, conforms.2, true_and, and_true, Directive.depth]

theorem directives_measures (isConst : Bool) :
    Measures directivesDepth fun n => directivesConform options isConst n :=
  (directive_measures options isConst).listed

mutual

theorem TypeRef.conforms_iff : {m n : Nat} → (type : TypeRef) →
    type.conforms options m = true → (type.conforms options n = true ↔ type.depth ≤ n)
  | 0, _, _, conforms => by simp [TypeRef.conforms] at conforms
  | _ + 1, 0, type, _ => by
      have positive := type.depth_pos
      simp only [TypeRef.conforms, Bool.false_eq_true, false_iff]
      omega
  | _ + 1, _ + 1, .nullable type, conforms => by
      simp only [TypeRef.conforms] at conforms ⊢
      exact type.conforms_iff conforms
  | _ + 1, _ + 1, .nonNull type _, conforms => by
      simp only [TypeRef.conforms, Bool.and_eq_true] at conforms ⊢
      rw [type.conforms_iff conforms.1]
      exact and_iff_left conforms.2

theorem NullableType.conforms_iff : {m n : Nat} → (type : NullableType) →
    type.conforms options m = true → (type.conforms options n = true ↔ type.depth ≤ n + 1)
  | _, _, .named _, conforms => iff_of_true conforms (Nat.succ_le_succ (Nat.zero_le _))
  | _, _, .list item _, conforms => by
      simp only [NullableType.conforms, Bool.and_eq_true] at conforms ⊢
      rw [item.conforms_iff conforms.1, NullableType.depth, Nat.add_le_add_iff_right]
      exact and_iff_left conforms.2

end

theorem spread_measures :
    Measures FragmentSpread.depth fun n spread => spread.conforms options n := by
  intro m n spread conforms
  simp only [FragmentSpread.conforms, Bool.and_eq_true] at conforms ⊢
  rw [directives_measures options false spread.directives conforms.1.2]
  simp only [conforms.1.1, conforms.2, true_and, and_true, FragmentSpread.depth]

mutual

theorem Selection.conforms_iff : {m n : Nat} → (selection : Selection) →
    selection.conforms options m = true →
    (selection.conforms options n = true ↔ selection.depth ≤ n)
  | _, _, .field field, conforms => by
      rw [Selection.conforms] at conforms ⊢
      exact field.conforms_iff conforms
  | _, _, .spread spread, conforms => by
      rw [Selection.conforms] at conforms ⊢
      exact spread_measures options spread conforms
  | _, _, .inline fragment, conforms => by
      rw [Selection.conforms] at conforms ⊢
      exact fragment.conforms_iff conforms

theorem Field.conforms_iff : {m n : Nat} → (field : Field) → field.conforms options m = true →
    (field.conforms options n = true ↔ field.depth ≤ n)
  | _, _, ⟨_, _, arguments, directives, set, _⟩, conforms => by
      simp only [Field.conforms, Bool.and_eq_true] at conforms ⊢
      obtain ⟨⟨⟨⟨names, argumentsOk⟩, directivesOk⟩, setOk⟩, locOk⟩ := conforms
      rw [(argument_measures options false).listed arguments argumentsOk,
        directives_measures options false directives directivesOk,
        optionalSetConforms_iff set setOk, Field.depth, Nat.max_le, Nat.max_le]
      simp only [names, locOk, true_and, and_true, and_assoc]

theorem InlineFragment.conforms_iff : {m n : Nat} → (fragment : InlineFragment) →
    fragment.conforms options m = true →
    (fragment.conforms options n = true ↔ fragment.depth ≤ n)
  | _, _, ⟨_, directives, set, _⟩, conforms => by
      simp only [InlineFragment.conforms, Bool.and_eq_true] at conforms ⊢
      obtain ⟨⟨⟨conditionOk, directivesOk⟩, setOk⟩, locOk⟩ := conforms
      rw [directives_measures options false directives directivesOk, set.conforms_iff setOk,
        InlineFragment.depth, Nat.max_le]
      simp only [conditionOk, locOk, true_and, and_true]

theorem SelectionSet.conforms_iff : {m n : Nat} → (set : SelectionSet) →
    set.conforms options m = true → (set.conforms options n = true ↔ set.depth ≤ n)
  | 0, _, _, conforms => by simp [SelectionSet.conforms] at conforms
  | _ + 1, 0, set, _ => by
      have positive := set.depth_pos
      simp only [SelectionSet.conforms, Bool.false_eq_true, false_iff]
      omega
  | _ + 1, _ + 1, ⟨selections, _⟩, conforms => by
      simp only [SelectionSet.conforms, Bool.and_eq_true] at conforms ⊢
      rw [selectionsConform_iff selections conforms.1.2, SelectionSet.depth,
        Nat.add_le_add_iff_right]
      simp only [conforms.1.1, conforms.2, true_and, and_true]

theorem optionalSetConforms_iff : {m n : Nat} → (set : Option SelectionSet) →
    optionalSetConforms options m set = true →
    (optionalSetConforms options n set = true ↔ optionalSetDepth set ≤ n)
  | _, _, none, _ => by simp [optionalSetConforms, optionalSetDepth]
  | _, _, some set, conforms => by
      rw [optionalSetConforms] at conforms ⊢
      exact set.conforms_iff conforms

theorem selectionsConform_iff : {m n : Nat} → (selections : List Selection) →
    selectionsConform options m selections = true →
    (selectionsConform options n selections = true ↔ selectionsDepth selections ≤ n)
  | _, _, [], _ => by simp [selectionsConform, selectionsDepth]
  | _, _, first :: rest, conform => by
      simp only [selectionsConform, Bool.and_eq_true] at conform ⊢
      rw [first.conforms_iff conform.1, selectionsConform_iff rest conform.2, selectionsDepth,
        Nat.max_le]

end

theorem variableDefinition_measures :
    Measures VariableDefinition.depth fun n definition => definition.conforms options n := by
  intro m n definition conforms
  simp only [VariableDefinition.conforms, Bool.and_eq_true] at conforms ⊢
  obtain ⟨⟨⟨⟨declaredOk, typeOk⟩, defaultOk⟩, directivesOk⟩, locOk⟩ := conforms
  rw [definition.type.conforms_iff options typeOk,
    measures_default (value_measures options true) definition.defaultValue defaultOk,
    directives_measures options true definition.directives directivesOk,
    VariableDefinition.depth, Nat.max_le, Nat.max_le]
  simp only [declaredOk, locOk, true_and, and_true, and_assoc]

theorem operation_measures :
    Measures OperationDefinition.depth fun n operation => operation.conforms options n := by
  intro m n operation conforms
  simp only [OperationDefinition.conforms, Bool.and_eq_true] at conforms ⊢
  obtain ⟨⟨⟨⟨nameOk, variablesOk⟩, directivesOk⟩, setOk⟩, locOk⟩ := conforms
  rw [(variableDefinition_measures options).listed operation.variableDefinitions variablesOk,
    directives_measures options false operation.directives directivesOk,
    operation.selectionSet.conforms_iff options setOk, OperationDefinition.depth, Nat.max_le,
    Nat.max_le]
  simp only [nameOk, locOk, true_and, and_true, and_assoc]

theorem fragment_measures :
    Measures FragmentDefinition.depth fun n fragment => fragment.conforms options n := by
  intro m n fragment conforms
  simp only [FragmentDefinition.conforms, Bool.and_eq_true] at conforms ⊢
  obtain ⟨⟨⟨⟨⟨namesOk, variablesOk⟩, conditionOk⟩, directivesOk⟩, setOk⟩, locOk⟩ := conforms
  rw [(variableDefinition_measures options).listed fragment.variableDefinitions variablesOk,
    directives_measures options false fragment.directives directivesOk,
    fragment.selectionSet.conforms_iff options setOk, FragmentDefinition.depth, Nat.max_le,
    Nat.max_le]
  simp only [namesOk, conditionOk, locOk, true_and, and_true, and_assoc]

theorem schemaDefinition_measures :
    Measures SchemaDefinition.depth fun n schema => schema.conforms options n := by
  intro m n schema conforms
  simp only [SchemaDefinition.conforms, Bool.and_eq_true] at conforms ⊢
  obtain ⟨⟨⟨⟨descriptionOk, directivesOk⟩, some'⟩, typesOk⟩, locOk⟩ := conforms
  rw [directives_measures options true schema.directives directivesOk]
  simp only [descriptionOk, some', typesOk, locOk, true_and, and_true, SchemaDefinition.depth]

theorem schemaExtension_measures :
    Measures SchemaExtension.depth fun n schema => schema.conforms options n := by
  intro m n schema conforms
  simp only [SchemaExtension.conforms, Bool.and_eq_true] at conforms ⊢
  obtain ⟨⟨⟨directivesOk, typesOk⟩, adds⟩, locOk⟩ := conforms
  rw [directives_measures options true schema.directives directivesOk]
  simp only [typesOk, adds, locOk, and_true, SchemaExtension.depth]

theorem inputValueDefinition_measures :
    Measures InputValueDefinition.depth fun n definition => definition.conforms options n := by
  intro m n definition conforms
  simp only [InputValueDefinition.conforms, Bool.and_eq_true] at conforms ⊢
  obtain ⟨⟨⟨⟨namesOk, typeOk⟩, defaultOk⟩, directivesOk⟩, locOk⟩ := conforms
  rw [definition.type.conforms_iff options typeOk,
    measures_default (value_measures options true) definition.defaultValue defaultOk,
    directives_measures options true definition.directives directivesOk,
    InputValueDefinition.depth, Nat.max_le, Nat.max_le]
  simp only [namesOk, locOk, true_and, and_true, and_assoc]

theorem fieldDefinition_measures :
    Measures FieldDefinition.depth fun n field => field.conforms options n := by
  intro m n field conforms
  simp only [FieldDefinition.conforms, Bool.and_eq_true] at conforms ⊢
  obtain ⟨⟨⟨⟨namesOk, argumentsOk⟩, typeOk⟩, directivesOk⟩, locOk⟩ := conforms
  rw [(inputValueDefinition_measures options).listed field.arguments argumentsOk,
    field.type.conforms_iff options typeOk,
    directives_measures options true field.directives directivesOk, FieldDefinition.depth,
    Nat.max_le, Nat.max_le]
  simp only [namesOk, locOk, true_and, and_true, and_assoc]

theorem enumValueDefinition_measures :
    Measures EnumValueDefinition.depth fun n value => value.conforms options n := by
  intro m n value conforms
  simp only [EnumValueDefinition.conforms, Bool.and_eq_true] at conforms ⊢
  obtain ⟨⟨namesOk, directivesOk⟩, locOk⟩ := conforms
  rw [directives_measures options true value.directives directivesOk]
  simp only [namesOk, locOk, true_and, and_true, EnumValueDefinition.depth]

theorem typeBody_measures : Measures TypeBody.depth fun n body => body.conforms options n := by
  intro m n body conforms
  cases body with
  | scalar => simp [TypeBody.conforms, TypeBody.depth]
  | union members => exact iff_of_true conforms (Nat.zero_le n)
  | object interfaces fields | interface interfaces fields =>
      simp only [TypeBody.conforms, Bool.and_eq_true] at conforms ⊢
      rw [(fieldDefinition_measures options).listed fields conforms.2]
      exact and_iff_right conforms.1
  | enum values => exact (enumValueDefinition_measures options).listed values conforms
  | inputObject fields => exact (inputValueDefinition_measures options).listed fields conforms

theorem typeDefinition_measures :
    Measures TypeDefinition.depth fun n type => type.conforms options n := by
  intro m n type conforms
  simp only [TypeDefinition.conforms, Bool.and_eq_true] at conforms ⊢
  obtain ⟨⟨⟨namesOk, directivesOk⟩, bodyOk⟩, locOk⟩ := conforms
  rw [directives_measures options true type.directives directivesOk,
    typeBody_measures options type.body bodyOk, TypeDefinition.depth, Nat.max_le]
  simp only [namesOk, locOk, true_and, and_true]

theorem typeExtension_measures :
    Measures TypeExtension.depth fun n type => type.conforms options n := by
  intro m n type conforms
  simp only [TypeExtension.conforms, Bool.and_eq_true] at conforms ⊢
  obtain ⟨⟨⟨⟨nameOk, directivesOk⟩, bodyOk⟩, adds⟩, locOk⟩ := conforms
  rw [directives_measures options true type.directives directivesOk,
    typeBody_measures options type.body bodyOk, TypeExtension.depth, Nat.max_le]
  simp only [nameOk, adds, locOk, true_and, and_true]

theorem directiveDefinition_measures :
    Measures DirectiveDefinition.depth fun n directive => directive.conforms options n := by
  intro m n directive conforms
  simp only [DirectiveDefinition.conforms, Bool.and_eq_true] at conforms ⊢
  obtain ⟨⟨⟨⟨namesOk, argumentsOk⟩, some'⟩, placesOk⟩, locOk⟩ := conforms
  rw [(inputValueDefinition_measures options).listed directive.arguments argumentsOk]
  simp only [namesOk, some', placesOk, locOk, true_and, and_true, DirectiveDefinition.depth]

/-- The levels that are enough for a definition are those down to its depth. -/
theorem definition_measures :
    Measures Definition.depth fun n definition => definition.conforms options n := by
  intro m n definition conforms
  cases definition with
  | operation inner => exact operation_measures options inner conforms
  | fragment inner => exact fragment_measures options inner conforms
  | schema inner => exact schemaDefinition_measures options inner conforms
  | type inner => exact typeDefinition_measures options inner conforms
  | directive inner => exact directiveDefinition_measures options inner conforms
  | schemaExtension inner => exact schemaExtension_measures options inner conforms
  | typeExtension inner => exact typeExtension_measures options inner conforms

end

end GraphQL

import GraphQL.Printer.Node
import GraphQL.Proofs.Printer.Executable

/-!
Trees with other locations. A function on locations is applied to every node of a tree, and
nothing else of the tree changes. Printed forms show no locations.
-/

namespace GraphQL

section
variable (change : Option Location → Option Location)

def Name.relocate (name : Name) : Name := { name with loc := change name.loc }

def StringValue.relocate (literal : StringValue) : StringValue :=
  { literal with loc := change literal.loc }

def Variable.relocate (reference : Variable) : Variable :=
  ⟨reference.name.relocate change, change reference.loc⟩

mutual

def Value.relocate : Value → Value
  | .var reference => .var (reference.relocate change)
  | .int text loc => .int text (change loc)
  | .float text loc => .float text (change loc)
  | .string literal => .string (literal.relocate change)
  | .boolean value loc => .boolean value (change loc)
  | .null loc => .null (change loc)
  | .enum name loc => .enum name (change loc)
  | .list items loc => .list (relocateItems items) (change loc)
  | .object fields loc => .object (relocateFields fields) (change loc)

def relocateItems : List Value → List Value
  | [] => []
  | item :: rest => item.relocate :: relocateItems rest

def relocateFields : List ObjectField → List ObjectField
  | [] => []
  | field :: rest => field.relocate :: relocateFields rest

def ObjectField.relocate : ObjectField → ObjectField
  | ⟨name, value, loc⟩ => ⟨name.relocate change, value.relocate, change loc⟩

end

def Argument.relocate (argument : Argument) : Argument :=
  ⟨argument.name.relocate change, argument.value.relocate change, change argument.loc⟩

def Directive.relocate (directive : Directive) : Directive :=
  ⟨directive.name.relocate change, directive.arguments.map (·.relocate change),
    change directive.loc⟩

def NamedType.relocate (type : NamedType) : NamedType :=
  ⟨type.name.relocate change, change type.loc⟩

mutual

def TypeRef.relocate : TypeRef → TypeRef
  | .nullable type => .nullable type.relocate
  | .nonNull type loc => .nonNull type.relocate (change loc)

def NullableType.relocate : NullableType → NullableType
  | .named type => .named (type.relocate change)
  | .list item loc => .list item.relocate (change loc)

end

def FragmentSpread.relocate (spread : FragmentSpread) : FragmentSpread :=
  ⟨spread.name.relocate change, spread.directives.map (·.relocate change), change spread.loc⟩

mutual

def Selection.relocate : Selection → Selection
  | .field field => .field field.relocate
  | .spread spread => .spread (spread.relocate change)
  | .inline fragment => .inline fragment.relocate

def Field.relocate : Field → Field
  | ⟨responseAlias, name, arguments, directives, set, loc⟩ =>
      ⟨responseAlias.map (·.relocate change), name.relocate change,
        arguments.map (·.relocate change), directives.map (·.relocate change),
        relocateOptional set, change loc⟩

def InlineFragment.relocate : InlineFragment → InlineFragment
  | ⟨typeCondition, directives, set, loc⟩ =>
      ⟨typeCondition.map (·.relocate change), directives.map (·.relocate change), set.relocate,
        change loc⟩

def SelectionSet.relocate : SelectionSet → SelectionSet
  | ⟨selections, loc⟩ => ⟨relocateSelections selections, change loc⟩

def relocateOptional : Option SelectionSet → Option SelectionSet
  | none => none
  | some set => some set.relocate

def relocateSelections : List Selection → List Selection
  | [] => []
  | first :: rest => first.relocate :: relocateSelections rest

end

def VariableDefinition.relocate (definition : VariableDefinition) : VariableDefinition :=
  ⟨definition.declared.relocate change, definition.type.relocate change,
    definition.defaultValue.map (·.relocate change),
    definition.directives.map (·.relocate change), change definition.loc⟩

def OperationDefinition.relocate (operation : OperationDefinition) : OperationDefinition :=
  ⟨operation.operation, operation.name.map (·.relocate change),
    operation.variableDefinitions.map (·.relocate change),
    operation.directives.map (·.relocate change), operation.selectionSet.relocate change,
    change operation.loc⟩

def FragmentDefinition.relocate (fragment : FragmentDefinition) : FragmentDefinition :=
  ⟨fragment.name.relocate change, fragment.variableDefinitions.map (·.relocate change),
    fragment.typeCondition.relocate change, fragment.directives.map (·.relocate change),
    fragment.selectionSet.relocate change, change fragment.loc⟩

def OperationTypeDefinition.relocate (definition : OperationTypeDefinition) :
    OperationTypeDefinition :=
  ⟨definition.operation, definition.type.relocate change, change definition.loc⟩

def SchemaDefinition.relocate (schema : SchemaDefinition) : SchemaDefinition :=
  ⟨schema.description.map (·.relocate change), schema.directives.map (·.relocate change),
    schema.operationTypes.map (·.relocate change), change schema.loc⟩

def SchemaExtension.relocate (schema : SchemaExtension) : SchemaExtension :=
  ⟨schema.directives.map (·.relocate change), schema.operationTypes.map (·.relocate change),
    change schema.loc⟩

def InputValueDefinition.relocate (definition : InputValueDefinition) : InputValueDefinition :=
  ⟨definition.description.map (·.relocate change), definition.name.relocate change,
    definition.type.relocate change, definition.defaultValue.map (·.relocate change),
    definition.directives.map (·.relocate change), change definition.loc⟩

def FieldDefinition.relocate (field : FieldDefinition) : FieldDefinition :=
  ⟨field.description.map (·.relocate change), field.name.relocate change,
    field.arguments.map (·.relocate change), field.type.relocate change,
    field.directives.map (·.relocate change), change field.loc⟩

def EnumValueDefinition.relocate (value : EnumValueDefinition) : EnumValueDefinition :=
  ⟨value.description.map (·.relocate change), value.name.relocate change,
    value.directives.map (·.relocate change), change value.loc⟩

def TypeBody.relocate : TypeBody → TypeBody
  | .scalar => .scalar
  | .object interfaces fields =>
      .object (interfaces.map (·.relocate change)) (fields.map (·.relocate change))
  | .interface interfaces fields =>
      .interface (interfaces.map (·.relocate change)) (fields.map (·.relocate change))
  | .union members => .union (members.map (·.relocate change))
  | .enum values => .enum (values.map (·.relocate change))
  | .inputObject fields => .inputObject (fields.map (·.relocate change))

def TypeDefinition.relocate (type : TypeDefinition) : TypeDefinition :=
  ⟨type.description.map (·.relocate change), type.name.relocate change,
    type.directives.map (·.relocate change), type.body.relocate change, change type.loc⟩

def TypeExtension.relocate (type : TypeExtension) : TypeExtension :=
  ⟨type.name.relocate change, type.directives.map (·.relocate change),
    type.body.relocate change, change type.loc⟩

def DirectiveDefinition.relocate (directive : DirectiveDefinition) : DirectiveDefinition :=
  ⟨directive.description.map (·.relocate change), directive.name.relocate change,
    directive.arguments.map (·.relocate change), directive.repeatable,
    directive.locations.map (·.relocate change), change directive.loc⟩

def Definition.relocate : Definition → Definition
  | .operation inner => .operation (inner.relocate change)
  | .fragment inner => .fragment (inner.relocate change)
  | .schema inner => .schema (inner.relocate change)
  | .type inner => .type (inner.relocate change)
  | .directive inner => .directive (inner.relocate change)
  | .schemaExtension inner => .schemaExtension (inner.relocate change)
  | .typeExtension inner => .typeExtension (inner.relocate change)

def Document.relocate (document : Document) : Document :=
  ⟨document.definitions.map (·.relocate change), change document.loc⟩

def Node.relocate : Node → Node
  | .name inner => .name (inner.relocate change)
  | .document inner => .document (inner.relocate change)
  | .definition inner => .definition (inner.relocate change)
  | .variableDefinition inner => .variableDefinition (inner.relocate change)
  | .selectionSet inner => .selectionSet (inner.relocate change)
  | .selection inner => .selection (inner.relocate change)
  | .argument inner => .argument (inner.relocate change)
  | .value inner => .value (inner.relocate change)
  | .objectField inner => .objectField (inner.relocate change)
  | .directive inner => .directive (inner.relocate change)
  | .type inner => .type (inner.relocate change)
  | .operationType inner => .operationType (inner.relocate change)
  | .fieldDefinition inner => .fieldDefinition (inner.relocate change)
  | .inputValueDefinition inner => .inputValueDefinition (inner.relocate change)
  | .enumValueDefinition inner => .enumValueDefinition (inner.relocate change)

end

def unsourced : Option Location → Option Location := Option.map Location.withoutSource

/-! Where every location stays as it is, so does the tree. -/

@[simp] theorem Name.relocate_id (name : Name) : name.relocate id = name := rfl

@[simp] theorem StringValue.relocate_id (literal : StringValue) :
    literal.relocate id = literal := rfl

@[simp] theorem Variable.relocate_id (reference : Variable) :
    reference.relocate id = reference := rfl

mutual

@[simp] theorem Value.relocate_id : (value : Value) → value.relocate id = value
  | .var _ | .int _ _ | .float _ _ | .string _ | .boolean _ _ | .null _ | .enum _ _ => rfl
  | .list items _ => by rw [Value.relocate, relocateItems_id items, id]
  | .object fields _ => by rw [Value.relocate, relocateFields_id fields, id]

theorem relocateItems_id : (items : List Value) → relocateItems id items = items
  | [] => rfl
  | item :: rest => by rw [relocateItems, item.relocate_id, relocateItems_id rest]

theorem relocateFields_id : (fields : List ObjectField) → relocateFields id fields = fields
  | [] => rfl
  | field :: rest => by rw [relocateFields, field.relocate_id, relocateFields_id rest]

theorem ObjectField.relocate_id : (field : ObjectField) → field.relocate id = field
  | ⟨_, value, _⟩ => by rw [ObjectField.relocate, value.relocate_id, Name.relocate_id, id]

end

@[simp] theorem Argument.relocate_id (argument : Argument) : argument.relocate id = argument := by
  simp [Argument.relocate]

@[simp] theorem Directive.relocate_id (directive : Directive) :
    directive.relocate id = directive := by
  simp [Directive.relocate]

@[simp] theorem NamedType.relocate_id (type : NamedType) : type.relocate id = type := rfl

mutual

@[simp] theorem TypeRef.relocate_id : (type : TypeRef) → type.relocate id = type
  | .nullable type => by rw [TypeRef.relocate, type.relocate_id]
  | .nonNull type _ => by rw [TypeRef.relocate, type.relocate_id, id]

theorem NullableType.relocate_id : (type : NullableType) → type.relocate id = type
  | .named _ => rfl
  | .list item _ => by rw [NullableType.relocate, item.relocate_id, id]

end

@[simp] theorem FragmentSpread.relocate_id (spread : FragmentSpread) :
    spread.relocate id = spread := by
  simp [FragmentSpread.relocate]

mutual

theorem Selection.relocate_id : (selection : Selection) → selection.relocate id = selection
  | .field field => by rw [Selection.relocate, field.relocate_id]
  | .spread spread => by rw [Selection.relocate, spread.relocate_id]
  | .inline fragment => by rw [Selection.relocate, fragment.relocate_id]

theorem Field.relocate_id : (field : Field) → field.relocate id = field
  | ⟨_, _, _, _, set, _⟩ => by simp [Field.relocate, relocateOptional_id set]

theorem InlineFragment.relocate_id : (fragment : InlineFragment) → fragment.relocate id = fragment
  | ⟨_, _, set, _⟩ => by simp [InlineFragment.relocate, set.relocate_id]

@[simp] theorem SelectionSet.relocate_id : (set : SelectionSet) → set.relocate id = set
  | ⟨selections, _⟩ => by rw [SelectionSet.relocate, relocateSelections_id selections, id]

theorem relocateOptional_id : (set : Option SelectionSet) → relocateOptional id set = set
  | none => rfl
  | some set => by rw [relocateOptional, set.relocate_id]

theorem relocateSelections_id : (selections : List Selection) →
    relocateSelections id selections = selections
  | [] => rfl
  | first :: rest => by rw [relocateSelections, first.relocate_id, relocateSelections_id rest]

end

@[simp] theorem VariableDefinition.relocate_id (definition : VariableDefinition) :
    definition.relocate id = definition := by
  simp [VariableDefinition.relocate]

@[simp] theorem OperationDefinition.relocate_id (operation : OperationDefinition) :
    operation.relocate id = operation := by
  simp [OperationDefinition.relocate]

@[simp] theorem FragmentDefinition.relocate_id (fragment : FragmentDefinition) :
    fragment.relocate id = fragment := by
  simp [FragmentDefinition.relocate]

@[simp] theorem OperationTypeDefinition.relocate_id (definition : OperationTypeDefinition) :
    definition.relocate id = definition := by
  simp [OperationTypeDefinition.relocate]

@[simp] theorem SchemaDefinition.relocate_id (schema : SchemaDefinition) :
    schema.relocate id = schema := by
  simp [SchemaDefinition.relocate]

@[simp] theorem SchemaExtension.relocate_id (schema : SchemaExtension) :
    schema.relocate id = schema := by
  simp [SchemaExtension.relocate]

@[simp] theorem InputValueDefinition.relocate_id (definition : InputValueDefinition) :
    definition.relocate id = definition := by
  simp [InputValueDefinition.relocate]

@[simp] theorem FieldDefinition.relocate_id (field : FieldDefinition) :
    field.relocate id = field := by
  simp [FieldDefinition.relocate]

@[simp] theorem EnumValueDefinition.relocate_id (value : EnumValueDefinition) :
    value.relocate id = value := by
  simp [EnumValueDefinition.relocate]

@[simp] theorem TypeBody.relocate_id (body : TypeBody) : body.relocate id = body := by
  cases body <;> simp [TypeBody.relocate]

@[simp] theorem TypeDefinition.relocate_id (type : TypeDefinition) :
    type.relocate id = type := by
  simp [TypeDefinition.relocate]

@[simp] theorem TypeExtension.relocate_id (type : TypeExtension) :
    type.relocate id = type := by
  simp [TypeExtension.relocate]

@[simp] theorem DirectiveDefinition.relocate_id (directive : DirectiveDefinition) :
    directive.relocate id = directive := by
  simp [DirectiveDefinition.relocate]

@[simp] theorem Definition.relocate_id (definition : Definition) :
    definition.relocate id = definition := by
  cases definition <;> simp [Definition.relocate]

theorem Document.relocate_id (document : Document) : document.relocate id = document := by
  simp [Document.relocate]

/-! The lists of mutual trees are mapped like all others. -/

section
variable (change : Option Location → Option Location)

theorem relocateItems_eq (items : List Value) :
    relocateItems change items = items.map (·.relocate change) := by
  induction items with
  | nil => rfl
  | cons item rest ih => rw [relocateItems, ih, List.map_cons]

theorem relocateFields_eq (fields : List ObjectField) :
    relocateFields change fields = fields.map (·.relocate change) := by
  induction fields with
  | nil => rfl
  | cons field rest ih => rw [relocateFields, ih, List.map_cons]

theorem relocateOptional_eq (set : Option SelectionSet) :
    relocateOptional change set = set.map (·.relocate change) := by
  cases set <;> rfl

theorem relocateSelections_eq (selections : List Selection) :
    relocateSelections change selections = selections.map (·.relocate change) := by
  induction selections with
  | nil => rfl
  | cons first rest ih => rw [relocateSelections, ih, List.map_cons]

/-! Printed forms. -/

@[simp] theorem Name.print_relocate (name : Name) : (name.relocate change).print = name.print := rfl

@[simp] theorem StringValue.print_relocate (literal : StringValue) :
    (literal.relocate change).print = literal.print := rfl

@[simp] theorem Variable.print_relocate (reference : Variable) :
    (reference.relocate change).print = reference.print := rfl

@[simp] theorem NamedType.print_relocate (type : NamedType) :
    (type.relocate change).print = type.print := rfl

mutual

theorem Value.print_relocate : (value : Value) → (value.relocate change).print = value.print
  | .var _ | .int _ _ | .float _ _ | .string _ | .boolean true _ | .boolean false _ | .null _
  | .enum _ _ => rfl
  | .list items _ => by rw [Value.relocate, Value.print, Value.print, printItems_relocate items]
  | .object fields _ => by
      rw [Value.relocate, Value.print, Value.print, printFields_relocate fields]

theorem printItems_relocate : (items : List Value) →
    printItems (relocateItems change items) = printItems items
  | [] => rfl
  | item :: rest => by
      rw [relocateItems, printItems, printItems, item.print_relocate, printItems_relocate rest]

theorem printFields_relocate : (fields : List ObjectField) →
    printFields (relocateFields change fields) = printFields fields
  | [] => rfl
  | field :: rest => by
      rw [relocateFields, printFields, printFields, field.print_relocate,
        printFields_relocate rest]

theorem ObjectField.print_relocate : (field : ObjectField) →
    (field.relocate change).print = field.print
  | ⟨name, value, _⟩ => by
      rw [ObjectField.relocate, ObjectField.print, ObjectField.print, name.print_relocate,
        value.print_relocate]

end

theorem map_print_relocate {print : α → List Char} {relocate : α → α}
    (each : ∀ item, print (relocate item) = print item) (items : List α) :
    (items.map relocate).map print = items.map print := by
  rw [List.map_map]
  exact List.map_congr_left fun item _ => each item

theorem printOptional_relocate {print : α → List Char} {relocate : α → α}
    (each : ∀ item, print (relocate item) = print item) (part : Option α) :
    printOptional print (part.map relocate) = printOptional print part := by
  cases part with
  | none => rfl
  | some node => exact each node

theorem Argument.print_relocate (argument : Argument) :
    (argument.relocate change).print = argument.print := by
  simp [Argument.relocate, Argument.print, Value.print_relocate]

theorem printArguments_relocate (owner : List Char) (arguments : List Argument) :
    printArguments owner (arguments.map (·.relocate change)) = printArguments owner arguments := by
  simp only [printArguments, map_print_relocate (Argument.print_relocate change)]

theorem Directive.print_relocate (directive : Directive) :
    (directive.relocate change).print = directive.print := by
  simp [Directive.relocate, Directive.print, printArguments_relocate]

theorem printDirectives_relocate (directives : List Directive) :
    printDirectives (directives.map (·.relocate change)) = printDirectives directives := by
  simp only [printDirectives, map_print_relocate (Directive.print_relocate change)]

mutual

theorem TypeRef.print_relocate : (type : TypeRef) → (type.relocate change).print = type.print
  | .nullable type => by
      rw [TypeRef.relocate, TypeRef.print, TypeRef.print, type.print_relocate]
  | .nonNull type _ => by
      rw [TypeRef.relocate, TypeRef.print, TypeRef.print, type.print_relocate]

theorem NullableType.print_relocate : (type : NullableType) →
    (type.relocate change).print = type.print
  | .named _ => rfl
  | .list item _ => by
      rw [NullableType.relocate, NullableType.print, NullableType.print, item.print_relocate]

end

theorem FragmentSpread.print_relocate (spread : FragmentSpread) :
    (spread.relocate change).print = spread.print := by
  simp [FragmentSpread.relocate, FragmentSpread.print, printDirectives_relocate]

theorem printFieldName_relocate (responseAlias : Option Name) (name : Name) :
    printFieldName (responseAlias.map (·.relocate change)) (name.relocate change) =
      printFieldName responseAlias name := by
  cases responseAlias <;> rfl

mutual

theorem Selection.print_relocate : (selection : Selection) →
    (selection.relocate change).print = selection.print
  | .field field => by
      rw [Selection.relocate, Selection.print, Selection.print, field.print_relocate]
  | .spread spread => by
      rw [Selection.relocate, Selection.print, Selection.print, spread.print_relocate]
  | .inline fragment => by
      rw [Selection.relocate, Selection.print, Selection.print, fragment.print_relocate]

theorem Field.print_relocate : (field : Field) → (field.relocate change).print = field.print
  | ⟨responseAlias, name, arguments, directives, set, _⟩ => by
      rw [Field.relocate, Field.print, Field.print, printFieldName_relocate,
        printArguments_relocate, printDirectives_relocate, printOptionalSet_relocate set]

theorem InlineFragment.print_relocate : (fragment : InlineFragment) →
    (fragment.relocate change).print = fragment.print
  | ⟨typeCondition, directives, set, _⟩ => by
      rw [InlineFragment.relocate, InlineFragment.print, InlineFragment.print,
        printOptional_relocate (NamedType.print_relocate change), printDirectives_relocate,
        set.print_relocate]

theorem SelectionSet.print_relocate : (set : SelectionSet) →
    (set.relocate change).print = set.print
  | ⟨selections, _⟩ => by
      rw [SelectionSet.relocate, SelectionSet.print, SelectionSet.print,
        printSelections_relocate selections]

theorem printOptionalSet_relocate : (set : Option SelectionSet) →
    printOptionalSet (relocateOptional change set) = printOptionalSet set
  | none => rfl
  | some set => by
      rw [relocateOptional, printOptionalSet, printOptionalSet, set.print_relocate]

theorem printSelections_relocate : (selections : List Selection) →
    printSelections (relocateSelections change selections) = printSelections selections
  | [] => rfl
  | first :: rest => by
      rw [relocateSelections, printSelections, printSelections, first.print_relocate,
        printSelections_relocate rest]

end

theorem VariableDefinition.print_relocate (definition : VariableDefinition) :
    (definition.relocate change).print = definition.print := by
  simp only [VariableDefinition.relocate, VariableDefinition.print, Variable.print_relocate,
    TypeRef.print_relocate, printOptional_relocate (Value.print_relocate change),
    printDirectives_relocate]

theorem printVariableDefinitions_relocate (definitions : List VariableDefinition) :
    printVariableDefinitions (definitions.map (·.relocate change)) =
      printVariableDefinitions definitions := by
  simp only [printVariableDefinitions,
    map_print_relocate (VariableDefinition.print_relocate change)]

theorem OperationDefinition.printHead_relocate (operation : OperationDefinition) :
    (operation.relocate change).printHead = operation.printHead := by
  simp only [OperationDefinition.relocate, OperationDefinition.printHead,
    printOptional_relocate (Name.print_relocate change), printVariableDefinitions_relocate,
    printDirectives_relocate]

theorem OperationDefinition.print_relocate (operation : OperationDefinition) :
    (operation.relocate change).print = operation.print := by
  have set : (operation.relocate change).selectionSet.print = operation.selectionSet.print :=
    SelectionSet.print_relocate change operation.selectionSet
  have head := printHead_relocate change operation
  by_cases shorthand : operation.printHead = OperationType.query.keyword.toList
  · rw [print_eq operation, if_pos shorthand, print_eq, if_pos (head.trans shorthand), set]
  · have long : (operation.relocate change).printHead ≠ OperationType.query.keyword.toList :=
      fun equal => shorthand (head.symm.trans equal)
    rw [print_eq operation, if_neg shorthand, print_eq, if_neg long, head, set]

theorem FragmentDefinition.print_relocate (fragment : FragmentDefinition) :
    (fragment.relocate change).print = fragment.print := by
  unfold FragmentDefinition.print
  dsimp only [FragmentDefinition.relocate]
  rw [Name.print_relocate, printVariableDefinitions_relocate, NamedType.print_relocate,
    printDirectives_relocate, SelectionSet.print_relocate]

theorem printDescribed_relocate (description : Option StringValue) (definition : List Char) :
    printDescribed (description.map (·.relocate change)) definition =
      printDescribed description definition := by
  simp only [printDescribed, printOptional_relocate (StringValue.print_relocate change)]

theorem OperationTypeDefinition.print_relocate (definition : OperationTypeDefinition) :
    (definition.relocate change).print = definition.print := rfl

theorem SchemaDefinition.print_relocate (schema : SchemaDefinition) :
    (schema.relocate change).print = schema.print := by
  simp only [SchemaDefinition.relocate, SchemaDefinition.print, printDescribed_relocate,
    printDirectives_relocate, printOperationTypes,
    map_print_relocate (OperationTypeDefinition.print_relocate change)]

theorem SchemaExtension.print_relocate (schema : SchemaExtension) :
    (schema.relocate change).print = schema.print := by
  simp only [SchemaExtension.relocate, SchemaExtension.print, printDirectives_relocate,
    printOperationTypes, map_print_relocate (OperationTypeDefinition.print_relocate change)]

theorem InputValueDefinition.print_relocate (definition : InputValueDefinition) :
    (definition.relocate change).print = definition.print := by
  simp only [InputValueDefinition.relocate, InputValueDefinition.print, printDescribed_relocate,
    Name.print_relocate, TypeRef.print_relocate,
    printOptional_relocate (Value.print_relocate change), printDirectives_relocate]

theorem printArgumentDefinitions_relocate (definitions : List InputValueDefinition) :
    printArgumentDefinitions (definitions.map (·.relocate change)) =
      printArgumentDefinitions definitions := by
  simp only [printArgumentDefinitions,
    map_print_relocate (InputValueDefinition.print_relocate change)]

theorem FieldDefinition.print_relocate (field : FieldDefinition) :
    (field.relocate change).print = field.print := by
  simp only [FieldDefinition.relocate, FieldDefinition.print, printDescribed_relocate,
    Name.print_relocate, printArgumentDefinitions_relocate, TypeRef.print_relocate,
    printDirectives_relocate]

theorem EnumValueDefinition.print_relocate (value : EnumValueDefinition) :
    (value.relocate change).print = value.print := by
  simp only [EnumValueDefinition.relocate, EnumValueDefinition.print, printDescribed_relocate,
    Name.print_relocate, printDirectives_relocate]

theorem TypeBody.form_relocate (body : TypeBody) : (body.relocate change).form = body.form := by
  cases body <;> rfl

theorem TypeBody.isEmpty_relocate (body : TypeBody) :
    (body.relocate change).isEmpty = body.isEmpty := by
  cases body <;> simp [TypeBody.relocate, TypeBody.isEmpty]

theorem TypeBody.print_relocate (body : TypeBody) (keyword : List Char) (name : Name)
    (directives : List Directive) :
    (body.relocate change).print keyword (name.relocate change)
        (directives.map (·.relocate change)) =
      body.print keyword name directives := by
  have types := map_print_relocate (NamedType.print_relocate change)
  cases body with
  | scalar =>
      simp only [TypeBody.relocate, TypeBody.print, Name.print_relocate, printDirectives_relocate]
  | object interfaces fields | interface interfaces fields =>
      simp only [TypeBody.relocate, TypeBody.print, Name.print_relocate, printDirectives_relocate,
        TypeBody.printInterfaces, TypeBody.interfaces, printTypes, types, TypeBody.printMembers,
        map_print_relocate (FieldDefinition.print_relocate change)]
  | union members =>
      simp only [TypeBody.relocate, TypeBody.print, Name.print_relocate, printDirectives_relocate,
        TypeBody.printInterfaces, TypeBody.interfaces, TypeBody.printMembers, printTypes, types]
  | enum values =>
      simp only [TypeBody.relocate, TypeBody.print, Name.print_relocate, printDirectives_relocate,
        TypeBody.printInterfaces, TypeBody.interfaces, TypeBody.printMembers,
        map_print_relocate (EnumValueDefinition.print_relocate change)]
  | inputObject fields =>
      simp only [TypeBody.relocate, TypeBody.print, Name.print_relocate, printDirectives_relocate,
        TypeBody.printInterfaces, TypeBody.interfaces, TypeBody.printMembers,
        map_print_relocate (InputValueDefinition.print_relocate change)]

theorem TypeDefinition.print_relocate (type : TypeDefinition) :
    (type.relocate change).print = type.print := by
  simp only [TypeDefinition.relocate, TypeDefinition.print, printDescribed_relocate,
    TypeBody.form_relocate, TypeBody.print_relocate]

theorem TypeExtension.print_relocate (type : TypeExtension) :
    (type.relocate change).print = type.print := by
  simp only [TypeExtension.relocate, TypeExtension.print, TypeBody.form_relocate,
    TypeBody.print_relocate]

theorem DirectiveDefinition.print_relocate (directive : DirectiveDefinition) :
    (directive.relocate change).print = directive.print := by
  obtain ⟨description, name, arguments, repeatable, locations, loc⟩ := directive
  cases repeatable <;>
    simp only [DirectiveDefinition.relocate, DirectiveDefinition.print, printDescribed_relocate,
      Name.print_relocate, printArgumentDefinitions_relocate,
      map_print_relocate (Name.print_relocate change), Bool.false_eq_true, ↓reduceIte]

theorem Definition.print_relocate (definition : Definition) :
    (definition.relocate change).print = definition.print := by
  cases definition with
  | operation inner => exact inner.print_relocate change
  | fragment inner => exact inner.print_relocate change
  | schema inner => exact inner.print_relocate change
  | type inner => exact inner.print_relocate change
  | directive inner => exact inner.print_relocate change
  | schemaExtension inner => exact inner.print_relocate change
  | typeExtension inner => exact inner.print_relocate change

theorem Document.print_relocate (document : Document) :
    (document.relocate change).print = document.print := by
  simp only [Document.relocate, Document.print,
    map_print_relocate (Definition.print_relocate change)]

/-- No printed form depends on where nodes stood. -/
theorem Node.print_relocate (node : Node) : (node.relocate change).print = node.print := by
  cases node with
  | name inner => exact inner.print_relocate change
  | document inner => exact inner.print_relocate change
  | definition inner => exact inner.print_relocate change
  | variableDefinition inner => exact inner.print_relocate change
  | selectionSet inner => exact inner.print_relocate change
  | selection inner => exact inner.print_relocate change
  | argument inner => exact inner.print_relocate change
  | value inner => exact inner.print_relocate change
  | objectField inner => exact inner.print_relocate change
  | directive inner => exact inner.print_relocate change
  | type inner => exact inner.print_relocate change
  | operationType inner => exact inner.print_relocate change
  | fieldDefinition inner => exact inner.print_relocate change
  | inputValueDefinition inner => exact inner.print_relocate change
  | enumValueDefinition inner => exact inner.print_relocate change

end

end GraphQL

import GraphQL.Proofs.Json.Parts

/-!
Every decoder of a node's form inverts the form's encoder. Where nodes of several kinds may
stand, `inner` is assumed to read what nests one level less deeply; all other places are read
by the decoder of their own form.
-/

namespace GraphQL

open Json

/-! What is written of a node is an object with the node's kind. -/

theorem Node.toJson_eq (node : Node) :
    ∃ entries, node.toJson = nodeJson node.kind entries node.loc := by
  cases node with
  | definition inner => cases inner <;> exact ⟨_, rfl⟩
  | selection inner => rcases inner with ⟨⟨⟩⟩ | ⟨⟩ | ⟨⟨⟩⟩ <;> exact ⟨_, rfl⟩
  | value inner => cases inner <;> exact ⟨_, rfl⟩
  | type inner => rcases inner with (⟨⟩ | ⟨⟩) | ⟨⟩ <;> exact ⟨_, rfl⟩
  | selectionSet inner => cases inner; exact ⟨_, rfl⟩
  | objectField inner => cases inner; exact ⟨_, rfl⟩
  | _ => exact ⟨_, rfl⟩

theorem Node.toJson_ne_null (node : Node) : node.toJson ≠ .null := by
  obtain ⟨entries, written⟩ := node.toJson_eq
  rw [written]
  exact nofun

theorem Node.kind?_toJson (node : Node) : node.toJson.kind? = some node.kind := by
  obtain ⟨entries, written⟩ := node.toJson_eq
  rw [written, kind?_nodeJson]

/-! Forms without places of several kinds. -/

theorem Name.inverts (levels : Nat) :
    Inverts levels Name.ofJson Name.toJson (·.relocate unsourced) :=
  fun _ _ => bind_ok rfl (bind_ok (locOf_nodeJson rfl) rfl)

theorem StringValue.inverts (levels : Nat) :
    Inverts levels StringValue.ofJson StringValue.toJson (·.relocate unsourced) :=
  fun _ _ => bind_ok rfl (bind_ok (flag_nodeJson rfl) (bind_ok (locOf_nodeJson rfl) rfl))

theorem nameOf_nodeJson {kind : Kind} {entries : List (String × Json)} {loc : Option Location}
    {name : Name}
    (found : (("kind", .string kind.text) :: entries).lookup "name" = some name.toJson) :
    nameOf (nodeJson kind entries loc) = .ok (name.relocate unsourced) :=
  (Name.inverts (nodeJson kind entries loc).depth).required (Nat.le_succ _) "name" found

theorem Variable.inverts (levels : Nat) :
    Inverts levels Variable.ofJson Variable.toJson (·.relocate unsourced) :=
  fun _ _ => bind_ok (nameOf_nodeJson rfl) (bind_ok (locOf_nodeJson rfl) rfl)

theorem NamedType.inverts (levels : Nat) :
    Inverts levels NamedType.ofJson NamedType.toJson (·.relocate unsourced) :=
  fun _ _ => bind_ok (nameOf_nodeJson rfl) (bind_ok (locOf_nodeJson rfl) rfl)

theorem OperationType.ofJson_toJson (operation : OperationType) :
    OperationType.ofJson operation.toJson = .ok operation := by
  cases operation <;> rfl

/-! The lists of mutual forms are written like all others. -/

theorem itemsJson_eq (items : List Value) : itemsJson items = items.map Value.toJson := by
  induction items with
  | nil => rfl
  | cons item rest ih => rw [itemsJson, ih, List.map_cons]

theorem fieldsJson_eq (fields : List ObjectField) :
    fieldsJson fields = fields.map ObjectField.toJson := by
  induction fields with
  | nil => rfl
  | cons field rest ih => rw [fieldsJson, ih, List.map_cons]

theorem optionalSetJson_eq (set : Option SelectionSet) :
    optionalSetJson set = .ofOption SelectionSet.toJson set := by
  cases set <;> rfl

theorem selectionsJson_eq (selections : List Selection) :
    selectionsJson selections = selections.map Selection.toJson := by
  induction selections with
  | nil => rfl
  | cons first rest ih => rw [selectionsJson, ih, List.map_cons]

namespace Decode

variable {inner : Inner} {levels : Nat}

/-! Places of several kinds. -/

theorem group_inverts {narrow : Node → Option α} {encode : α → Json} {change : α → α}
    (expected : String) (wrap : α → Node)
    (reads : Inverts levels inner Node.toJson (·.relocate unsourced))
    (written : ∀ item, (wrap item).toJson = encode item)
    (narrowed : ∀ item, narrow ((wrap item).relocate unsourced) = some (change item)) :
    Inverts levels (group expected narrow inner) encode change := by
  intro item within
  rw [← written] at within ⊢
  refine bind_ok (reads (wrap item) within) ?_
  rw [narrowed]

section
variable (reads : Inverts levels inner Node.toJson (·.relocate unsourced))
include reads

theorem value_inverts : Inverts levels (value inner) Value.toJson (·.relocate unsourced) :=
  group_inverts "a value" .value reads (fun _ => rfl) (fun _ => rfl)

theorem type_inverts : Inverts levels (type inner) TypeRef.toJson (·.relocate unsourced) :=
  group_inverts "a type" .type reads (fun _ => rfl) (fun _ => rfl)

theorem nullableType_inverts :
    Inverts levels (nullableType inner) NullableType.toJson (·.relocate unsourced) :=
  group_inverts "a nullable type" (fun found => .type (.nullable found)) reads (fun _ => rfl)
    (fun _ => rfl)

theorem selection_inverts :
    Inverts levels (selection inner) Selection.toJson (·.relocate unsourced) :=
  group_inverts "a selection" .selection reads (fun _ => rfl) (fun _ => rfl)

theorem definition_inverts :
    Inverts levels (definition inner) Definition.toJson (·.relocate unsourced) :=
  group_inverts "a definition" .definition reads (fun _ => rfl) (fun _ => rfl)

/-! Forms. -/

theorem objectField_inverts :
    Inverts (levels + 1) (objectField inner) ObjectField.toJson (·.relocate unsourced) := by
  rintro ⟨name, value, loc⟩ within
  exact bind_ok (nameOf_nodeJson rfl)
    (bind_ok ((value_inverts reads).required within "value" rfl) (bind_ok (locOf_nodeJson rfl) rfl))

theorem argument_inverts :
    Inverts (levels + 1) (argument inner) Argument.toJson (·.relocate unsourced) :=
  fun _ within => bind_ok (nameOf_nodeJson rfl)
    (bind_ok ((value_inverts reads).required within "value" rfl) (bind_ok (locOf_nodeJson rfl) rfl))

theorem directive_inverts :
    Inverts (levels + 1) (directive inner) Directive.toJson (·.relocate unsourced) :=
  fun _ within => bind_ok (nameOf_nodeJson rfl)
    (bind_ok (((argument_inverts reads).mono (Nat.le_succ _)).listed within "arguments" rfl)
      (bind_ok (locOf_nodeJson rfl) rfl))

theorem directivesOf_nodeJson {kind : Kind} {entries : List (String × Json)}
    {loc : Option Location} {directives : List Directive}
    (within : (nodeJson kind entries loc).depth ≤ levels + 1)
    (found : (("kind", .string kind.text) :: entries).lookup "directives" =
      some (.ofList Directive.toJson directives)) :
    directivesOf inner (nodeJson kind entries loc) =
      .ok (directives.map (·.relocate unsourced)) :=
  ((directive_inverts reads).mono (Nat.le_succ _)).listed within "directives" found

theorem selectionSet_inverts :
    Inverts (levels + 1) (selectionSet inner) SelectionSet.toJson (·.relocate unsourced) := by
  rintro ⟨selections, loc⟩ within
  rw [SelectionSet.toJson, selectionsJson_eq] at within ⊢
  simp only [SelectionSet.relocate, relocateSelections_eq]
  exact bind_ok ((selection_inverts reads).listed within "selections" rfl)
    (bind_ok (locOf_nodeJson rfl) rfl)

theorem field_inverts :
    Inverts (levels + 1) (field inner) Field.toJson (·.relocate unsourced) := by
  rintro ⟨responseAlias, name, arguments, directives, set, loc⟩ within
  rw [Field.toJson, optionalSetJson_eq] at within ⊢
  simp only [Field.relocate, relocateOptional_eq]
  have aliased := (Name.inverts levels).optional within "alias"
    (fun name => (Node.name name).toJson_ne_null) rfl
  have arguments := ((argument_inverts reads).mono (Nat.le_succ _)).listed within "arguments" rfl
  have set := ((selectionSet_inverts reads).mono (Nat.le_succ _)).optional within "selectionSet"
    (fun set => (Node.selectionSet set).toJson_ne_null) rfl
  exact bind_ok aliased (bind_ok (nameOf_nodeJson rfl) (bind_ok arguments
    (bind_ok (directivesOf_nodeJson reads within rfl)
      (bind_ok set (bind_ok (locOf_nodeJson rfl) rfl)))))

theorem fragmentSpread_inverts :
    Inverts (levels + 1) (fragmentSpread inner) FragmentSpread.toJson (·.relocate unsourced) :=
  fun _ within => bind_ok (nameOf_nodeJson rfl)
    (bind_ok (directivesOf_nodeJson reads within rfl) (bind_ok (locOf_nodeJson rfl) rfl))

theorem inlineFragment_inverts :
    Inverts (levels + 1) (inlineFragment inner) InlineFragment.toJson (·.relocate unsourced) := by
  rintro ⟨typeCondition, directives, set, loc⟩ within
  have condition := (NamedType.inverts levels).optional within "typeCondition"
    (fun type => (Node.type (.nullable (.named type))).toJson_ne_null) rfl
  have set := ((selectionSet_inverts reads).mono (Nat.le_succ _)).required within "selectionSet" rfl
  exact bind_ok condition (bind_ok (directivesOf_nodeJson reads within rfl)
    (bind_ok set (bind_ok (locOf_nodeJson rfl) rfl)))

theorem variableDefinition_inverts :
    Inverts (levels + 1) (variableDefinition inner) VariableDefinition.toJson
      (·.relocate unsourced) := by
  intro definition within
  have declared := (Variable.inverts levels).required within "variable" rfl
  have type := (type_inverts reads).required within "type" rfl
  have defaultValue := (value_inverts reads).optional within "defaultValue"
    (fun value => (Node.value value).toJson_ne_null) rfl
  exact bind_ok declared (bind_ok type (bind_ok defaultValue
    (bind_ok (directivesOf_nodeJson reads within rfl) (bind_ok (locOf_nodeJson rfl) rfl))))

theorem operationDefinition_inverts :
    Inverts (levels + 1) (operationDefinition inner) OperationDefinition.toJson
      (·.relocate unsourced) := by
  intro operation within
  have name := (Name.inverts levels).optional within "name"
    (fun name => (Node.name name).toJson_ne_null) rfl
  have declared := ((variableDefinition_inverts reads).mono (Nat.le_succ _)).listed within
    "variableDefinitions" rfl
  have set := ((selectionSet_inverts reads).mono (Nat.le_succ _)).required within "selectionSet" rfl
  exact bind_ok (OperationType.ofJson_toJson operation.operation) (bind_ok name
    (bind_ok declared (bind_ok (directivesOf_nodeJson reads within rfl)
      (bind_ok set (bind_ok (locOf_nodeJson rfl) rfl)))))

theorem fragmentDefinition_inverts :
    Inverts (levels + 1) (fragmentDefinition inner) FragmentDefinition.toJson
      (·.relocate unsourced) := by
  intro fragment within
  have declared := ((variableDefinition_inverts reads).mono (Nat.le_succ _)).listed within
    "variableDefinitions" rfl
  have condition := (NamedType.inverts levels).required within "typeCondition" rfl
  have set := ((selectionSet_inverts reads).mono (Nat.le_succ _)).required within "selectionSet" rfl
  exact bind_ok (nameOf_nodeJson rfl) (bind_ok declared (bind_ok condition
    (bind_ok (directivesOf_nodeJson reads within rfl)
      (bind_ok set (bind_ok (locOf_nodeJson rfl) rfl)))))

end

end Decode

end GraphQL

import GraphQL.Proofs.Depth
import GraphQL.Proofs.WellFormed

/-!
How many levels the parts of a tree need. What stands inside a node is no deeper than the node
itself, unless it does not count there at all; and what does not count is a name, or needs the
one level of its own. So everything inside a tree conforms with the levels that all of it has.
-/

namespace GraphQL

def Node.depth : Node → Nat
  | .name _ | .operationType _ => 0
  | .document inner => inner.depth
  | .definition inner => inner.depth
  | .variableDefinition inner => inner.depth
  | .selectionSet inner => inner.depth
  | .selection inner => inner.depth
  | .argument inner => inner.depth
  | .value inner => inner.depth
  | .objectField inner => inner.depth
  | .directive inner => inner.depth
  | .type inner => inner.depth
  | .fieldDefinition inner => inner.depth
  | .inputValueDefinition inner => inner.depth
  | .enumValueDefinition inner => inner.depth

theorem deepest_le {depth : α → Nat} {items : List α} {n : Nat} :
    deepest depth items ≤ n ↔ ∀ item ∈ items, depth item ≤ n := by
  induction items with
  | nil => simp [deepest]
  | cons first rest ih => rw [deepest, Nat.max_le, ih, List.forall_mem_cons]

theorem itemsDepth_eq (items : List Value) : itemsDepth items = deepest Value.depth items := by
  induction items with
  | nil => rfl
  | cons item rest ih => rw [itemsDepth, ih, deepest]

theorem fieldsDepth_eq (fields : List ObjectField) :
    fieldsDepth fields = deepest ObjectField.depth fields := by
  induction fields with
  | nil => rfl
  | cons field rest ih => rw [fieldsDepth, ih, deepest]

theorem selectionsDepth_eq (selections : List Selection) :
    selectionsDepth selections = deepest Selection.depth selections := by
  induction selections with
  | nil => rfl
  | cons first rest ih => rw [selectionsDepth, ih, deepest]

def NodesWithin (levels : Nat) (nodes : List Node) : Prop := ∀ node ∈ nodes, node.depth ≤ levels

section
variable {levels : Nat}

@[simp] theorem nodesWithin_nil : NodesWithin levels [] := by
  rintro _ ⟨⟩

@[simp] theorem nodesWithin_cons {node : Node} {rest : List Node} :
    NodesWithin levels (node :: rest) ↔ node.depth ≤ levels ∧ NodesWithin levels rest :=
  List.forall_mem_cons

@[simp] theorem nodesWithin_append {left right : List Node} :
    NodesWithin levels (left ++ right) ↔ NodesWithin levels left ∧ NodesWithin levels right :=
  List.forall_mem_append

theorem nodesWithin_map {wrap : α → Node} {depth : α → Nat}
    (same : ∀ item, (wrap item).depth = depth item) {items : List α}
    (within : deepest depth items ≤ levels) : NodesWithin levels (items.map wrap) :=
  List.forall_mem_map.mpr fun item member => same item ▸ deepest_le.mp within item member

theorem nodesWithin_optional {wrap : α → Node} {part : Option α}
    (within : ∀ item ∈ part, (wrap item).depth ≤ levels) :
    NodesWithin levels (part.map wrap).toList := by
  cases part with
  | none => exact nodesWithin_nil
  | some item => exact nodesWithin_cons.mpr ⟨within item rfl, nodesWithin_nil⟩

theorem names_within (names : List Name) : NodesWithin levels (names.map .name) :=
  List.forall_mem_map.mpr fun _ _ => Nat.zero_le levels

theorem name_within (name : Option Name) : NodesWithin levels (name.map Node.name).toList :=
  nodesWithin_optional fun _ _ => Nat.zero_le levels

theorem directives_within {directives : List Directive}
    (within : directivesDepth directives ≤ levels) :
    NodesWithin levels (directives.map .directive) := nodesWithin_map (fun _ => rfl) within

theorem default_within {value : Option Value} (within : defaultDepth value ≤ levels) :
    NodesWithin levels (defaultNodes value) := by
  refine nodesWithin_optional ?_
  rintro given rfl
  exact within

theorem Value.children_within {value : Value} (within : value.depth ≤ levels) :
    NodesWithin levels value.children := by
  cases value with
  | list items loc =>
      rw [Value.depth, itemsDepth_eq] at within
      exact nodesWithin_map (fun _ => rfl) (Nat.le_of_succ_le within)
  | object fields loc =>
      rw [Value.depth, fieldsDepth_eq] at within
      exact nodesWithin_map (fun _ => rfl) (Nat.le_of_succ_le within)
  | var reference => exact nodesWithin_cons.mpr ⟨Nat.zero_le levels, nodesWithin_nil⟩
  | _ => exact nodesWithin_nil

theorem TypeRef.children_within {type : TypeRef} (within : type.depth ≤ levels) :
    NodesWithin levels type.children := by
  rcases type with (type | ⟨item, loc⟩) | ⟨type, loc⟩
  · exact nodesWithin_cons.mpr ⟨Nat.zero_le levels, nodesWithin_nil⟩
  · rw [TypeRef.depth, NullableType.depth] at within
    exact nodesWithin_cons.mpr ⟨Nat.le_of_succ_le within, nodesWithin_nil⟩
  · exact nodesWithin_cons.mpr ⟨within, nodesWithin_nil⟩

section
variable (some' : 1 ≤ levels)
include some'

theorem types_within (types : List NamedType) : NodesWithin levels (types.map NamedType.node) :=
  List.forall_mem_map.mpr fun _ _ => some'

theorem description_within (description : Option StringValue) :
    NodesWithin levels (descriptionNodes description) :=
  nodesWithin_optional fun _ _ => some'

theorem Selection.children_within {selection : Selection} (within : selection.depth ≤ levels) :
    NodesWithin levels selection.children := by
  cases selection with
  | field inner =>
      obtain ⟨responseAlias, name, arguments, directives, set, loc⟩ := inner
      simp only [Selection.depth, Field.depth, Nat.max_le] at within
      obtain ⟨arguments, directives, inside⟩ := within
      simp only [Selection.children, nodesWithin_append, nodesWithin_cons]
      refine ⟨name_within _, Nat.zero_le levels,
        ⟨nodesWithin_map (fun _ => rfl) arguments, directives_within directives⟩, ?_⟩
      refine nodesWithin_optional ?_
      rintro inner rfl
      exact inside
  | spread inner =>
      exact nodesWithin_cons.mpr ⟨Nat.zero_le levels, directives_within within⟩
  | inline inner =>
      obtain ⟨typeCondition, directives, set, loc⟩ := inner
      simp only [Selection.depth, InlineFragment.depth, Nat.max_le] at within
      simp only [Selection.children, nodesWithin_append, nodesWithin_cons]
      exact ⟨⟨nodesWithin_optional fun _ _ => some', directives_within within.1⟩, within.2,
        nodesWithin_nil⟩

theorem TypeBody.children_within {body : TypeBody} {name : Name} {directives : List Directive}
    (bodyWithin : body.depth ≤ levels) (directivesWithin : directivesDepth directives ≤ levels) :
    NodesWithin levels (body.children name directives) := by
  have members : NodesWithin levels body.members := by
    cases body with
    | scalar => exact nodesWithin_nil
    | object interfaces fields | interface interfaces fields | enum fields | inputObject fields =>
        exact nodesWithin_map (fun _ => rfl) bodyWithin
    | union types => exact types_within some' types
  simp only [TypeBody.children, nodesWithin_cons, nodesWithin_append]
  exact ⟨Nat.zero_le levels, ⟨types_within some' _, directives_within directivesWithin⟩, members⟩

theorem Definition.children_within {definition : Definition} (within : definition.depth ≤ levels) :
    NodesWithin levels definition.children := by
  cases definition with
  | operation inner =>
      simp only [Definition.depth, OperationDefinition.depth, Nat.max_le] at within
      obtain ⟨declared, directives, set⟩ := within
      simp only [Definition.children, nodesWithin_append, nodesWithin_cons]
      exact ⟨⟨⟨name_within _, nodesWithin_map (fun _ => rfl) declared⟩,
        directives_within directives⟩, set, nodesWithin_nil⟩
  | fragment inner =>
      simp only [Definition.depth, FragmentDefinition.depth, Nat.max_le] at within
      obtain ⟨declared, directives, set⟩ := within
      simp only [Definition.children, nodesWithin_append, nodesWithin_cons]
      exact ⟨Nat.zero_le levels, nodesWithin_map (fun _ => rfl) declared, some',
        directives_within directives, set, nodesWithin_nil⟩
  | schema inner =>
      simp only [Definition.children, nodesWithin_append]
      exact ⟨⟨description_within some' _, directives_within within⟩,
        List.forall_mem_map.mpr fun _ _ => Nat.zero_le levels⟩
  | type inner =>
      simp only [Definition.depth, TypeDefinition.depth, Nat.max_le] at within
      exact nodesWithin_append.mpr ⟨description_within some' _,
        TypeBody.children_within some' within.2 within.1⟩
  | directive inner =>
      simp only [Definition.children, nodesWithin_append, nodesWithin_cons]
      exact ⟨description_within some' _, Nat.zero_le levels, nodesWithin_map (fun _ => rfl) within,
        names_within _⟩
  | schemaExtension inner =>
      exact nodesWithin_append.mpr ⟨directives_within within,
        List.forall_mem_map.mpr fun _ _ => Nat.zero_le levels⟩
  | typeExtension inner =>
      simp only [Definition.depth, TypeExtension.depth, Nat.max_le] at within
      exact TypeBody.children_within some' within.2 within.1

theorem Node.children_within {node : Node} (within : node.depth ≤ levels) :
    NodesWithin levels node.children := by
  cases node with
  | name inner => exact nodesWithin_nil
  | document inner => exact nodesWithin_map (fun _ => rfl) within
  | definition inner => exact Definition.children_within some' within
  | variableDefinition inner =>
      simp only [Node.depth, VariableDefinition.depth, Nat.max_le] at within
      obtain ⟨type, default, directives⟩ := within
      simp only [Node.children, nodesWithin_cons, nodesWithin_append]
      exact ⟨some', type, default_within default, directives_within directives⟩
  | selectionSet inner =>
      obtain ⟨selections, loc⟩ := inner
      rw [Node.depth, SelectionSet.depth, selectionsDepth_eq] at within
      exact nodesWithin_map (fun _ => rfl) (Nat.le_of_succ_le within)
  | selection inner => exact Selection.children_within some' within
  | argument inner =>
      simp only [Node.children, nodesWithin_cons]
      exact ⟨Nat.zero_le levels, within, nodesWithin_nil⟩
  | value inner => exact Value.children_within within
  | objectField inner =>
      obtain ⟨name, value, loc⟩ := inner
      rw [Node.depth, ObjectField.depth] at within
      simp only [Node.children, nodesWithin_cons]
      exact ⟨Nat.zero_le levels, within, nodesWithin_nil⟩
  | directive inner =>
      exact nodesWithin_cons.mpr ⟨Nat.zero_le levels, nodesWithin_map (fun _ => rfl) within⟩
  | type inner => exact TypeRef.children_within within
  | operationType inner => exact nodesWithin_cons.mpr ⟨some', nodesWithin_nil⟩
  | fieldDefinition inner =>
      simp only [Node.depth, FieldDefinition.depth, Nat.max_le] at within
      obtain ⟨arguments, type, directives⟩ := within
      simp only [Node.children, nodesWithin_append, nodesWithin_cons]
      exact ⟨description_within some' _, Nat.zero_le levels,
        nodesWithin_map (fun _ => rfl) arguments, type, directives_within directives⟩
  | inputValueDefinition inner =>
      simp only [Node.depth, InputValueDefinition.depth, Nat.max_le] at within
      obtain ⟨type, default, directives⟩ := within
      simp only [Node.children, nodesWithin_append, nodesWithin_cons]
      exact ⟨description_within some' _, Nat.zero_le levels, type, default_within default,
        directives_within directives⟩
  | enumValueDefinition inner =>
      simp only [Node.children, nodesWithin_append, nodesWithin_cons]
      exact ⟨description_within some' _, Nat.zero_le levels, directives_within within⟩

theorem Node.Inside.within {inner outer : Node} (inside : inner.Inside outer)
    (within : outer.depth ≤ levels) : inner.depth ≤ levels :=
  inside.induct (fun _ within => Node.children_within some' within) within

end

end

section
variable {options : Options}

mutual

theorem Value.conforms_of_const : {levels : Nat} → (value : Value) →
    value.conforms options true levels = true → value.conforms options false levels = true
  | 0, _, conforms => by simp [Value.conforms] at conforms
  | _ + 1, .var _, conforms => by simp [Value.conforms] at conforms
  | _ + 1, .int _ _, conforms | _ + 1, .float _ _, conforms | _ + 1, .string _, conforms
  | _ + 1, .boolean _ _, conforms | _ + 1, .null _, conforms | _ + 1, .enum _ _, conforms =>
      conforms
  | levels + 1, .list items _, conforms => by
      simp only [Value.conforms, Bool.and_eq_true] at conforms ⊢
      exact ⟨itemsConform_of_const items conforms.1, conforms.2⟩
  | levels + 1, .object fields _, conforms => by
      simp only [Value.conforms, Bool.and_eq_true] at conforms ⊢
      exact ⟨fieldsConform_of_const fields conforms.1, conforms.2⟩

theorem itemsConform_of_const : {levels : Nat} → (items : List Value) →
    itemsConform options true levels items = true →
    itemsConform options false levels items = true
  | _, [], _ => rfl
  | _, item :: rest, conform => by
      simp only [itemsConform, Bool.and_eq_true] at conform ⊢
      exact ⟨item.conforms_of_const conform.1, itemsConform_of_const rest conform.2⟩

theorem fieldsConform_of_const : {levels : Nat} → (fields : List ObjectField) →
    fieldsConform options true levels fields = true →
    fieldsConform options false levels fields = true
  | _, [], _ => rfl
  | _, ⟨_, value, _⟩ :: rest, conform => by
      simp only [fieldsConform, ObjectField.conforms, Bool.and_eq_true] at conform ⊢
      exact ⟨⟨⟨conform.1.1.1, value.conforms_of_const conform.1.1.2⟩, conform.1.2⟩,
        fieldsConform_of_const rest conform.2⟩

end

def Node.ConformsWithin (options : Options) (levels : Nat) : Node → Prop
  | .definition inner => inner.conforms options levels = true
  | .selectionSet inner => inner.conforms options levels = true
  | .value inner => inner.conforms options false levels = true
  | .type inner => inner.conforms options levels = true
  | _ => True

theorem Node.conforms_within {node : Node} {levels : Nat} (conforms : node.Conforms options)
    (within : node.depth ≤ levels) : node.ConformsWithin options levels := by
  cases node with
  | definition inner =>
      obtain ⟨_, conforms⟩ := conforms
      exact (definition_measures options inner conforms).mpr within
  | selectionSet inner | type inner =>
      obtain ⟨_, conforms⟩ := conforms
      exact (inner.conforms_iff options conforms).mpr within
  | value inner =>
      obtain ⟨isConst, _, conforms⟩ := conforms
      have kept := (inner.conforms_iff options isConst conforms).mpr within
      cases isConst with
      | false => exact kept
      | true => exact inner.conforms_of_const kept
  | _ => trivial

/-- What stands inside a document conforms with the levels that the document has. -/
theorem Node.Inside.conforms_within {document : Document} {node : Node}
    (inside : node.Inside (.document document)) (conforms : document.conforms options = true)
    (some' : 1 ≤ options.maxNestingDepth) :
    node.ConformsWithin options options.maxNestingDepth := by
  have depth : document.depth ≤ options.maxNestingDepth := by
    simp only [Document.conforms, Bool.and_eq_true] at conforms
    exact ((definition_measures options).listed document.definitions conforms.1.2).mp conforms.1.2
  have start : (Node.document document).Conforms options := conforms
  exact Node.conforms_within
    (inside.induct (fun _ conforms => Node.children_conform conforms) start)
    (inside.within some' depth)

end

end GraphQL

import GraphQL.Proofs.Faithful
import GraphQL.Proofs.Nodes

/-!
Trees that were parsed are well formed everywhere: each node keeps the rules that its own type
leaves open.
-/

namespace GraphQL

open GraphQL.Parser

def DirectivesConst (directives : List Directive) : Prop :=
  ∀ directive ∈ directives, ∀ argument ∈ directive.arguments, argument.value.isConst = true

def DefaultConst (value : Option Value) : Prop := ∀ given ∈ value, given.isConst = true

/-- Numbers and block strings look like such, and an enum value is none of the words for other
values. -/
def Value.Sound : Value → Prop
  | .int text _ => Lexical.isInt text.toList = true
  | .float text _ => Lexical.isFloat text.toList = true
  | .string literal => literal.block = true → BlockString.isValue literal.value.toList = true
  | .enum name _ => Lexical.isName name.toList = true ∧ isReservedValue name = false
  | .var _ | .boolean .. | .null _ | .list .. | .object .. => True

def Definition.Sound (options : Options) : Definition → Prop
  | .operation _ => True
  | .fragment inner =>
      inner.name.value ≠ "on" ∧ (options.fragmentVariables = false → inner.variableDefinitions = [])
  | .schema inner => inner.operationTypes ≠ [] ∧ DirectivesConst inner.directives
  | .type inner => DirectivesConst inner.directives
  | .directive inner => inner.locations ≠ [] ∧
      ∀ place ∈ inner.locations, (DirectiveLocation.ofText? place.value).isSome = true
  | .schemaExtension inner => (inner.directives ≠ [] ∨ inner.operationTypes ≠ []) ∧
      DirectivesConst inner.directives
  | .typeExtension inner => (inner.directives ≠ [] ∨ inner.body.isEmpty = false) ∧
      DirectivesConst inner.directives

/-- The rules for a single node. Those for its parts are theirs. -/
def Node.Sound (options : Options) : Node → Prop
  | .name inner => Lexical.isName inner.value.toList = true
  | .document inner => inner.definitions ≠ []
  | .definition inner => inner.Sound options
  | .variableDefinition inner => DefaultConst inner.defaultValue ∧ DirectivesConst inner.directives
  | .selectionSet inner => inner.selections ≠ []
  | .selection (.spread inner) => inner.name.value ≠ "on"
  | .value inner => inner.Sound
  | .fieldDefinition inner => DirectivesConst inner.directives
  | .inputValueDefinition inner =>
      DefaultConst inner.defaultValue ∧ DirectivesConst inner.directives
  | .enumValueDefinition inner =>
      isReservedValue inner.name.value = false ∧ DirectivesConst inner.directives
  | .selection _ | .argument _ | .objectField _ | .directive _ | .type _ | .operationType _ => True

/-- What parsing checks of a node, with some levels left to open at its place. -/
def Node.Conforms (options : Options) : Node → Prop
  | .name _ => True
  | .document inner => inner.conforms options = true
  | .operationType inner => inner.conforms options = true
  | .definition inner => ∃ levels, inner.conforms options levels = true
  | .variableDefinition inner => ∃ levels, inner.conforms options levels = true
  | .selectionSet inner => ∃ levels, inner.conforms options levels = true
  | .selection inner => ∃ levels, inner.conforms options levels = true
  | .argument inner => ∃ isConst levels, inner.conforms options isConst levels = true
  | .value inner => ∃ isConst levels, inner.conforms options isConst levels = true
  | .objectField inner => ∃ isConst levels, inner.conforms options isConst levels = true
  | .directive inner => ∃ isConst levels, inner.conforms options isConst levels = true
  | .type inner => ∃ levels, inner.conforms options levels = true
  | .fieldDefinition inner => ∃ levels, inner.conforms options levels = true
  | .inputValueDefinition inner => ∃ levels, inner.conforms options levels = true
  | .enumValueDefinition inner => ∃ levels, inner.conforms options levels = true

def NodesConform (options : Options) (nodes : List Node) : Prop :=
  ∀ node ∈ nodes, node.Conforms options

section
variable {options : Options} {levels : Nat}

@[simp] theorem nodesConform_nil : NodesConform options [] := by
  rintro _ ⟨⟩

@[simp] theorem nodesConform_cons {node : Node} {rest : List Node} :
    NodesConform options (node :: rest) ↔ node.Conforms options ∧ NodesConform options rest :=
  List.forall_mem_cons

@[simp] theorem nodesConform_append {left right : List Node} :
    NodesConform options (left ++ right) ↔
      NodesConform options left ∧ NodesConform options right :=
  List.forall_mem_append

theorem nodesConform_map {wrap : α → Node} {ok : α → Bool} {items : List α}
    (each : ∀ item, ok item = true → (wrap item).Conforms options) (allOk : items.all ok = true) :
    NodesConform options (items.map wrap) :=
  List.forall_mem_map.mpr fun item member => each item (List.all_eq_true.mp allOk item member)

theorem nodesConform_optional {wrap : α → Node} {ok : α → Bool} {part : Option α}
    (each : ∀ item, ok item = true → (wrap item).Conforms options) (partOk : part.all ok = true) :
    NodesConform options (part.map wrap).toList := by
  cases part with
  | none => exact nodesConform_nil
  | some item => exact nodesConform_cons.mpr ⟨each item partOk, nodesConform_nil⟩

theorem NamedType.conforms_node {type : NamedType} (conforms : type.conforms options = true) :
    type.node.Conforms options := ⟨1, conforms⟩

theorem directives_conform {isConst : Bool} {directives : List Directive}
    (conform : directivesConform options isConst levels directives = true) :
    NodesConform options (directives.map .directive) :=
  nodesConform_map (fun _ conforms => ⟨isConst, levels, conforms⟩) conform

theorem description_conforms {description : Option StringValue}
    (conforms : descriptionConforms options description = true) :
    NodesConform options (descriptionNodes description) :=
  nodesConform_optional (fun _ conforms => ⟨true, 1, conforms⟩) conforms

theorem default_conforms {value : Option Value}
    (conforms : (value.all fun given => given.conforms options true levels) = true) :
    NodesConform options (defaultNodes value) :=
  nodesConform_optional (fun _ conforms => ⟨true, levels, conforms⟩) conforms

theorem names_conform (names : List Name) : NodesConform options (names.map .name) :=
  List.forall_mem_map.mpr fun _ _ => trivial

theorem Value.children_conform {isConst : Bool} {value : Value}
    (conforms : value.conforms options isConst levels = true) :
    NodesConform options value.children := by
  cases levels with
  | zero => simp [Value.conforms] at conforms
  | succ levels =>
      cases value with
      | list items loc =>
          simp only [Value.conforms, itemsConform_eq, Bool.and_eq_true] at conforms
          exact nodesConform_map (fun _ conforms => ⟨isConst, levels, conforms⟩) conforms.1
      | object fields loc =>
          simp only [Value.conforms, fieldsConform_eq, Bool.and_eq_true] at conforms
          exact nodesConform_map (fun _ conforms => ⟨isConst, levels, conforms⟩) conforms.1
      | var reference => exact nodesConform_cons.mpr ⟨trivial, nodesConform_nil⟩
      | _ => exact nodesConform_nil

theorem TypeRef.children_conform {type : TypeRef} (conforms : type.conforms options levels = true) :
    NodesConform options type.children := by
  cases levels with
  | zero => simp [TypeRef.conforms] at conforms
  | succ levels =>
      rcases type with (type | ⟨item, loc⟩) | ⟨type, loc⟩
      · exact nodesConform_cons.mpr ⟨trivial, nodesConform_nil⟩
      · simp only [TypeRef.conforms, NullableType.conforms, Bool.and_eq_true] at conforms
        exact nodesConform_cons.mpr ⟨⟨levels, conforms.1⟩, nodesConform_nil⟩
      · simp only [TypeRef.conforms, Bool.and_eq_true] at conforms
        exact nodesConform_cons.mpr ⟨⟨levels + 1, conforms.1⟩, nodesConform_nil⟩

theorem Selection.children_conform {selection : Selection}
    (conforms : selection.conforms options levels = true) :
    NodesConform options selection.children := by
  cases selection with
  | field inner =>
      obtain ⟨responseAlias, name, arguments, directives, set, loc⟩ := inner
      simp only [Selection.conforms, Field.conforms, optionalSetConforms_eq,
        Bool.and_eq_true] at conforms
      obtain ⟨⟨⟨⟨⟨key, _⟩, arguments⟩, directives⟩, set⟩, _⟩ := conforms
      simp only [Selection.children, nodesConform_append, nodesConform_cons]
      exact ⟨nodesConform_optional (fun _ _ => trivial) key, trivial,
        ⟨nodesConform_map (fun _ conforms => ⟨false, levels, conforms⟩) arguments,
          directives_conform directives⟩,
        nodesConform_optional (fun _ conforms => ⟨levels, conforms⟩) set⟩
  | spread inner =>
      simp only [Selection.conforms, FragmentSpread.conforms, Bool.and_eq_true] at conforms
      exact nodesConform_cons.mpr ⟨trivial, directives_conform conforms.1.2⟩
  | inline inner =>
      obtain ⟨typeCondition, directives, set, loc⟩ := inner
      simp only [Selection.conforms, InlineFragment.conforms, Bool.and_eq_true] at conforms
      obtain ⟨⟨⟨condition, directives⟩, set⟩, _⟩ := conforms
      simp only [Selection.children, nodesConform_append, nodesConform_cons]
      exact ⟨⟨nodesConform_optional (fun _ => NamedType.conforms_node) condition,
        directives_conform directives⟩, ⟨levels, set⟩, nodesConform_nil⟩

theorem TypeBody.children_conform {body : TypeBody} {name : Name} {directives : List Directive}
    (bodyOk : body.conforms options levels = true)
    (directivesOk : directivesConform options true levels directives = true) :
    NodesConform options (body.children name directives) := by
  have types {types : List NamedType}
      (typesOk : (types.all fun type => type.conforms options) = true) :
      NodesConform options (types.map NamedType.node) :=
    nodesConform_map (fun _ => NamedType.conforms_node) typesOk
  have parts : NodesConform options (body.interfaces.map NamedType.node) ∧
      NodesConform options body.members := by
    cases body with
    | scalar => exact ⟨nodesConform_nil, nodesConform_nil⟩
    | object interfaces fields | interface interfaces fields =>
        simp only [TypeBody.conforms, Bool.and_eq_true] at bodyOk
        exact ⟨types bodyOk.1, nodesConform_map (fun _ conforms => ⟨levels, conforms⟩) bodyOk.2⟩
    | union members => exact ⟨nodesConform_nil, types bodyOk⟩
    | enum parts | inputObject parts =>
        exact ⟨nodesConform_nil, nodesConform_map (fun _ conforms => ⟨levels, conforms⟩) bodyOk⟩
  simp only [TypeBody.children, nodesConform_cons, nodesConform_append]
  exact ⟨trivial, ⟨parts.1, directives_conform directivesOk⟩, parts.2⟩

theorem arguments_conform {definitions : List InputValueDefinition}
    (conform : (definitions.all fun definition => definition.conforms options levels) = true) :
    NodesConform options (definitions.map .inputValueDefinition) :=
  nodesConform_map (fun _ conforms => ⟨levels, conforms⟩) conform

theorem variables_conform {definitions : List VariableDefinition}
    (conform : (definitions.all fun definition => definition.conforms options levels) = true) :
    NodesConform options (definitions.map .variableDefinition) :=
  nodesConform_map (fun _ conforms => ⟨levels, conforms⟩) conform

theorem Definition.children_conform {definition : Definition}
    (conforms : definition.conforms options levels = true) :
    NodesConform options definition.children := by
  cases definition with
  | operation inner =>
      simp only [Definition.conforms, OperationDefinition.conforms, Bool.and_eq_true] at conforms
      obtain ⟨⟨⟨⟨named, declared⟩, directives⟩, set⟩, _⟩ := conforms
      simp only [Definition.children, nodesConform_append, nodesConform_cons]
      exact ⟨⟨⟨nodesConform_optional (fun _ _ => trivial) named, variables_conform declared⟩,
        directives_conform directives⟩, ⟨levels, set⟩, nodesConform_nil⟩
  | fragment inner =>
      simp only [Definition.conforms, FragmentDefinition.conforms, Bool.and_eq_true] at conforms
      obtain ⟨⟨⟨⟨⟨_, declared⟩, type⟩, directives⟩, set⟩, _⟩ := conforms
      simp only [Definition.children, nodesConform_append, nodesConform_cons]
      exact ⟨trivial, variables_conform declared, NamedType.conforms_node type,
        directives_conform directives, ⟨levels, set⟩, nodesConform_nil⟩
  | schema inner =>
      simp only [Definition.conforms, SchemaDefinition.conforms, Bool.and_eq_true] at conforms
      obtain ⟨⟨⟨⟨description, directives⟩, _⟩, operations⟩, _⟩ := conforms
      simp only [Definition.children, nodesConform_append]
      exact ⟨⟨description_conforms description, directives_conform directives⟩,
        nodesConform_map (fun _ conforms => conforms) operations⟩
  | type inner =>
      simp only [Definition.conforms, TypeDefinition.conforms, Bool.and_eq_true] at conforms
      obtain ⟨⟨⟨⟨description, _⟩, directives⟩, body⟩, _⟩ := conforms
      simp only [Definition.children, nodesConform_append]
      exact ⟨description_conforms description, TypeBody.children_conform body directives⟩
  | directive inner =>
      simp only [Definition.conforms, DirectiveDefinition.conforms, Bool.and_eq_true] at conforms
      obtain ⟨⟨⟨⟨⟨description, _⟩, arguments⟩, _⟩, _⟩, _⟩ := conforms
      simp only [Definition.children, nodesConform_append, nodesConform_cons]
      exact ⟨description_conforms description, trivial, arguments_conform arguments,
        names_conform _⟩
  | schemaExtension inner =>
      simp only [Definition.conforms, SchemaExtension.conforms, Bool.and_eq_true] at conforms
      obtain ⟨⟨⟨directives, operations⟩, _⟩, _⟩ := conforms
      simp only [Definition.children, nodesConform_append]
      exact ⟨directives_conform directives,
        nodesConform_map (fun _ conforms => conforms) operations⟩
  | typeExtension inner =>
      simp only [Definition.conforms, TypeExtension.conforms, Bool.and_eq_true] at conforms
      obtain ⟨⟨⟨⟨_, directives⟩, body⟩, _⟩, _⟩ := conforms
      exact TypeBody.children_conform body directives

theorem Node.children_conform {node : Node} (conforms : node.Conforms options) :
    NodesConform options node.children := by
  cases node with
  | name inner => exact nodesConform_nil
  | document inner =>
      simp only [Node.Conforms, Document.conforms, Bool.and_eq_true] at conforms
      exact nodesConform_map (fun _ conforms => ⟨_, conforms⟩) conforms.1.2
  | definition inner =>
      obtain ⟨levels, conforms⟩ := conforms
      exact Definition.children_conform conforms
  | variableDefinition inner =>
      obtain ⟨levels, conforms⟩ := conforms
      simp only [VariableDefinition.conforms, Bool.and_eq_true] at conforms
      obtain ⟨⟨⟨⟨declared, type⟩, default⟩, directives⟩, _⟩ := conforms
      have reference : (Value.var inner.declared).conforms options false 1 = true := declared
      simp only [Node.children, nodesConform_cons, nodesConform_append]
      exact ⟨⟨false, 1, reference⟩, ⟨levels, type⟩, default_conforms default,
        directives_conform directives⟩
  | selectionSet inner =>
      obtain ⟨levels, conforms⟩ := conforms
      obtain ⟨_, inside, selections⟩ := SelectionSet.selections_conform conforms
      exact nodesConform_map (fun _ conforms => ⟨inside, conforms⟩) selections
  | selection inner =>
      obtain ⟨levels, conforms⟩ := conforms
      exact Selection.children_conform conforms
  | argument inner =>
      obtain ⟨isConst, levels, conforms⟩ := conforms
      simp only [Argument.conforms, Bool.and_eq_true] at conforms
      simp only [Node.children, nodesConform_cons]
      exact ⟨trivial, ⟨isConst, levels, conforms.1.2⟩, nodesConform_nil⟩
  | value inner =>
      obtain ⟨isConst, levels, conforms⟩ := conforms
      exact Value.children_conform conforms
  | objectField inner =>
      obtain ⟨name, value, loc⟩ := inner
      obtain ⟨isConst, levels, conforms⟩ := conforms
      simp only [ObjectField.conforms, Bool.and_eq_true] at conforms
      simp only [Node.children, nodesConform_cons]
      exact ⟨trivial, ⟨isConst, levels, conforms.1.2⟩, nodesConform_nil⟩
  | directive inner =>
      obtain ⟨isConst, levels, conforms⟩ := conforms
      simp only [Directive.conforms, Bool.and_eq_true] at conforms
      simp only [Node.children, nodesConform_cons]
      exact ⟨trivial, nodesConform_map (fun _ conforms => ⟨isConst, levels, conforms⟩) conforms.1.2⟩
  | type inner =>
      obtain ⟨levels, conforms⟩ := conforms
      exact TypeRef.children_conform conforms
  | operationType inner =>
      simp only [Node.Conforms, OperationTypeDefinition.conforms, Bool.and_eq_true] at conforms
      exact nodesConform_cons.mpr ⟨NamedType.conforms_node conforms.1, nodesConform_nil⟩
  | fieldDefinition inner =>
      obtain ⟨levels, conforms⟩ := conforms
      simp only [FieldDefinition.conforms, Bool.and_eq_true] at conforms
      obtain ⟨⟨⟨⟨⟨description, _⟩, arguments⟩, type⟩, directives⟩, _⟩ := conforms
      simp only [Node.children, nodesConform_append, nodesConform_cons]
      exact ⟨description_conforms description, trivial, arguments_conform arguments,
        ⟨levels, type⟩, directives_conform directives⟩
  | inputValueDefinition inner =>
      obtain ⟨levels, conforms⟩ := conforms
      simp only [InputValueDefinition.conforms, Bool.and_eq_true] at conforms
      obtain ⟨⟨⟨⟨⟨description, _⟩, type⟩, default⟩, directives⟩, _⟩ := conforms
      simp only [Node.children, nodesConform_append, nodesConform_cons]
      exact ⟨description_conforms description, trivial, ⟨levels, type⟩,
        default_conforms default, directives_conform directives⟩
  | enumValueDefinition inner =>
      obtain ⟨levels, conforms⟩ := conforms
      simp only [EnumValueDefinition.conforms, Bool.and_eq_true] at conforms
      obtain ⟨⟨⟨⟨description, _⟩, _⟩, directives⟩, _⟩ := conforms
      simp only [Node.children, nodesConform_append, nodesConform_cons]
      exact ⟨description_conforms description, trivial, directives_conform directives⟩

mutual

theorem Value.isConst_of_conforms : {levels : Nat} → (value : Value) →
    value.conforms options true levels = true → value.isConst = true
  | 0, _, conforms => by simp [Value.conforms] at conforms
  | _ + 1, .var _, conforms => by simp [Value.conforms] at conforms
  | _ + 1, .int _ _, _ | _ + 1, .float _ _, _ | _ + 1, .string _, _ | _ + 1, .boolean _ _, _
  | _ + 1, .null _, _ | _ + 1, .enum _ _, _ => rfl
  | levels + 1, .list items _, conforms => by
      simp only [Value.conforms, Bool.and_eq_true] at conforms
      exact allConst_of_conforms items conforms.1
  | levels + 1, .object fields _, conforms => by
      simp only [Value.conforms, Bool.and_eq_true] at conforms
      exact allFieldsConst_of_conforms fields conforms.1

theorem allConst_of_conforms : {levels : Nat} → (items : List Value) →
    itemsConform options true levels items = true → Value.allConst items = true
  | _, [], _ => rfl
  | _, item :: rest, conform => by
      simp only [itemsConform, Bool.and_eq_true] at conform
      simp only [Value.allConst, Bool.and_eq_true]
      exact ⟨item.isConst_of_conforms conform.1, allConst_of_conforms rest conform.2⟩

theorem allFieldsConst_of_conforms : {levels : Nat} → (fields : List ObjectField) →
    fieldsConform options true levels fields = true → Value.allFieldsConst fields = true
  | _, [], _ => rfl
  | _, ⟨_, value, _⟩ :: rest, conform => by
      simp only [fieldsConform, ObjectField.conforms, Bool.and_eq_true] at conform
      simp only [Value.allFieldsConst, Bool.and_eq_true]
      exact ⟨value.isConst_of_conforms conform.1.1.2, allFieldsConst_of_conforms rest conform.2⟩

end

theorem directivesConst_of_conform {directives : List Directive}
    (conform : directivesConform options true levels directives = true) :
    DirectivesConst directives := by
  intro directive member argument isPart
  have directiveOk := List.all_eq_true.mp conform directive member
  simp only [Directive.conforms, Bool.and_eq_true] at directiveOk
  have argumentOk := List.all_eq_true.mp directiveOk.1.2 argument isPart
  simp only [Argument.conforms, Bool.and_eq_true] at argumentOk
  exact argument.value.isConst_of_conforms argumentOk.1.2

theorem defaultConst_of_conform {value : Option Value}
    (conforms : (value.all fun given => given.conforms options true levels) = true) :
    DefaultConst value := by
  rintro given rfl
  exact given.isConst_of_conforms conforms

/-! A node that conforms and can be written is sound. -/

theorem Value.sound {isConst : Bool} {value : Value}
    (conforms : value.conforms options isConst levels = true) (proper : AllProper value.lexemes) :
    value.Sound := by
  cases levels with
  | zero => simp [Value.conforms] at conforms
  | succ levels =>
      cases value with
      | int text loc | float text loc => exact (allProper_cons.mp proper).1
      | string literal =>
          intro block
          have isProper := (allProper_cons.mp proper).1
          rwa [StringValue.lexeme, if_pos block] at isProper
      | enum name loc =>
          simp only [Value.conforms, Bool.and_eq_true, Bool.not_eq_true'] at conforms
          exact ⟨(allProper_cons.mp proper).1, conforms.1⟩
      | _ => trivial

theorem Definition.sound {definition : Definition}
    (conforms : definition.conforms options levels = true) : definition.Sound options := by
  cases definition with
  | operation inner => trivial
  | fragment inner =>
      simp only [Definition.conforms, FragmentDefinition.conforms, Bool.and_eq_true, bne_iff_ne,
        Bool.or_eq_true, List.isEmpty_iff] at conforms
      obtain ⟨⟨⟨⟨⟨⟨⟨_, named⟩, declared⟩, _⟩, _⟩, _⟩, _⟩, _⟩ := conforms
      refine ⟨named, fun refused => ?_⟩
      rcases declared with allowed | none
      · rw [refused] at allowed
        cases allowed
      · exact none
  | schema inner =>
      simp only [Definition.conforms, SchemaDefinition.conforms, Bool.and_eq_true,
        Bool.not_eq_true', List.isEmpty_eq_false_iff] at conforms
      obtain ⟨⟨⟨⟨_, directives⟩, some'⟩, _⟩, _⟩ := conforms
      exact ⟨some', directivesConst_of_conform directives⟩
  | type inner =>
      simp only [Definition.conforms, TypeDefinition.conforms, Bool.and_eq_true] at conforms
      exact directivesConst_of_conform conforms.1.1.2
  | directive inner =>
      simp only [Definition.conforms, DirectiveDefinition.conforms, Bool.and_eq_true,
        Bool.not_eq_true', List.isEmpty_eq_false_iff] at conforms
      obtain ⟨⟨⟨_, some'⟩, places⟩, _⟩ := conforms
      refine ⟨some', fun place member => ?_⟩
      have placeOk := List.all_eq_true.mp places place member
      exact (Bool.and_eq_true_iff.mp placeOk).2
  | schemaExtension inner =>
      simp only [Definition.conforms, SchemaExtension.conforms, Bool.and_eq_true,
        Bool.not_eq_true', Bool.and_eq_false_iff, List.isEmpty_eq_false_iff] at conforms
      obtain ⟨⟨⟨directives, _⟩, adds⟩, _⟩ := conforms
      exact ⟨adds, directivesConst_of_conform directives⟩
  | typeExtension inner =>
      simp only [Definition.conforms, TypeExtension.conforms, Bool.and_eq_true,
        Bool.not_eq_true', Bool.and_eq_false_iff, List.isEmpty_eq_false_iff] at conforms
      obtain ⟨⟨⟨⟨_, directives⟩, _⟩, adds⟩, _⟩ := conforms
      exact ⟨adds, directivesConst_of_conform directives⟩

theorem Node.sound {node : Node} (conforms : node.Conforms options)
    (proper : AllProper node.lexemes) : node.Sound options := by
  cases node with
  | name inner => exact (allProper_cons.mp proper).1
  | document inner =>
      simp only [Node.Conforms, Document.conforms, Bool.and_eq_true, Bool.not_eq_true',
        List.isEmpty_eq_false_iff] at conforms
      exact conforms.1.1
  | definition inner =>
      obtain ⟨levels, conforms⟩ := conforms
      exact Definition.sound conforms
  | variableDefinition inner =>
      obtain ⟨levels, conforms⟩ := conforms
      simp only [VariableDefinition.conforms, Bool.and_eq_true] at conforms
      exact ⟨defaultConst_of_conform conforms.1.1.2, directivesConst_of_conform conforms.1.2⟩
  | selectionSet inner =>
      obtain ⟨levels, conforms⟩ := conforms
      exact (SelectionSet.selections_conform conforms).1
  | selection inner =>
      obtain ⟨levels, conforms⟩ := conforms
      cases inner with
      | spread inner =>
          simp only [Selection.conforms, FragmentSpread.conforms, Bool.and_eq_true,
            bne_iff_ne] at conforms
          exact conforms.1.1.2
      | _ => trivial
  | value inner =>
      obtain ⟨isConst, levels, conforms⟩ := conforms
      exact Value.sound conforms proper
  | fieldDefinition inner =>
      obtain ⟨levels, conforms⟩ := conforms
      simp only [FieldDefinition.conforms, Bool.and_eq_true] at conforms
      exact directivesConst_of_conform conforms.1.2
  | inputValueDefinition inner =>
      obtain ⟨levels, conforms⟩ := conforms
      simp only [InputValueDefinition.conforms, Bool.and_eq_true] at conforms
      exact ⟨defaultConst_of_conform conforms.1.1.2, directivesConst_of_conform conforms.1.2⟩
  | enumValueDefinition inner =>
      obtain ⟨levels, conforms⟩ := conforms
      simp only [EnumValueDefinition.conforms, Bool.and_eq_true, Bool.not_eq_true'] at conforms
      exact ⟨conforms.1.1.2, directivesConst_of_conform conforms.1.2⟩
  | argument _ | objectField _ | directive _ | type _ | operationType _ => trivial

/-- What parsing checks at the root and what lexing checks of all lexemes make everything
inside sound. -/
theorem Node.Inside.sound {node root : Node} (inside : node.Inside root)
    (conforms : root.Conforms options) (proper : AllProper root.lexemes) : node.Sound options := by
  have step : ∀ node : Node, node.Conforms options ∧ AllProper node.lexemes →
      ∀ child ∈ node.children, child.Conforms options ∧ AllProper child.lexemes := by
    intro node here child member
    exact ⟨Node.children_conform here.1 child member, Node.children_proper here.2 child member⟩
  obtain ⟨conforms, proper⟩ := inside.induct step ⟨conforms, proper⟩
  exact Node.sound conforms proper

end

/-- A production that was all of a text conforms, and its lexemes can be written. -/
theorem conforms_of_whole {options : Options} {item : Parser α} {spell : α → List Lexeme}
    {ok : α → Bool} (each : Reads options item spell ok)
    (spelled : ∀ found, AllSpelled (spell found)) {source : Source} {found : α}
    (parsed : (whole item).run source options = .ok found) :
    ok found = true ∧ AllProper (spell found) := by
  obtain ⟨isOk, all, lexed, kept, _⟩ := whole_parse_ok each spelled parsed
  exact ⟨isOk, kept ▸ lexed.allProper⟩

/-- Whatever a source is parsed as, everything in it is sound. -/
theorem parse_sound (source : Source) (options : Options) :
    (∀ document, Document.parse source options = .ok document →
      ∀ node : Node, node.Inside (.document document) → node.Sound options) ∧
    (∀ value, Value.parse source options = .ok value →
      ∀ node : Node, node.Inside (.value value) → node.Sound options) ∧
    (∀ value, Value.parseConst source options = .ok value → value.isConst = true ∧
      ∀ node : Node, node.Inside (.value value) → node.Sound options) ∧
    (∀ type, TypeRef.parse source options = .ok type →
      ∀ node : Node, node.Inside (.type type) → node.Sound options) := by
  refine ⟨?_, ?_, ?_, ?_⟩
  · intro document parsed node inside
    obtain ⟨conforms, proper⟩ := Document.conforms_of_parse parsed
    exact inside.sound conforms proper
  · intro value parsed node inside
    obtain ⟨conforms, proper⟩ := conforms_of_whole (value_reads false _) Value.spelled parsed
    exact inside.sound ⟨false, _, conforms⟩ proper
  · intro value parsed
    obtain ⟨conforms, proper⟩ := conforms_of_whole (value_reads true _) Value.spelled parsed
    exact ⟨value.isConst_of_conforms conforms, fun node inside =>
      inside.sound ⟨true, _, conforms⟩ proper⟩
  · intro type parsed node inside
    obtain ⟨conforms, proper⟩ := conforms_of_whole (typeRef_reads _) TypeRef.spelled parsed
    exact inside.sound ⟨_, conforms⟩ proper

theorem parse_sound_queryAlone :
    (∀ node : Node, node.Inside (.document queryAlone) → node.Sound bareOptions) ∧
    (∀ node : Node, node.Inside (.value (.list [.var ⟨bareName "a", none⟩] none)) →
      node.Sound bareOptions) ∧
    ((Value.list [.int "1" none] none).isConst = true ∧
      ∀ node : Node, node.Inside (.value (.list [.int "1" none] none)) →
        node.Sound bareOptions) ∧
    (∀ node : Node, node.Inside (.type (.nonNull (.named ⟨bareName "A", none⟩) none)) →
      node.Sound bareOptions) := by
  refine ⟨?_, ?_, ?_, ?_⟩
  · exact (parse_sound (.ofBody "\x7b a: B \x7d") bareOptions).1 _
      (ok_of_toOption (by decide +kernel))
  · exact (parse_sound (.ofBody "[$a]") bareOptions).2.1 _ (ok_of_toOption (by decide +kernel))
  · exact (parse_sound (.ofBody "[1]") bareOptions).2.2.1 _ (ok_of_toOption (by decide +kernel))
  · exact (parse_sound (.ofBody "A!") bareOptions).2.2.2 _ (ok_of_toOption (by decide +kernel))

end GraphQL

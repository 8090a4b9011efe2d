import GraphQL.Proofs.Printer.TypeSystem
import GraphQL.Proofs.Rules
import GraphQL.Tree.Node

/-!
What stands inside a node. The rules of the grammar and the look of lexemes go down from a node
to its children, and so to everything inside it.
-/

namespace GraphQL

/-! The children of each sort of node, in the order in which they are written. -/

def NamedType.node (type : NamedType) : Node := .type (.nullable (.named type))

def descriptionNodes (description : Option StringValue) : List Node :=
  (description.map fun literal => Node.value (.string literal)).toList

def defaultNodes (value : Option Value) : List Node := (value.map Node.value).toList

def Value.children : Value → List Node
  | .var reference => [.name reference.name]
  | .list items _ => items.map .value
  | .object fields _ => fields.map .objectField
  | .int .. | .float .. | .string _ | .boolean .. | .null _ | .enum .. => []

def TypeRef.children : TypeRef → List Node
  | .nullable (.named type) => [.name type.name]
  | .nullable (.list item _) => [.type item]
  | .nonNull type _ => [.type (.nullable type)]

def Selection.children : Selection → List Node
  | .field inner =>
      (inner.responseAlias.map Node.name).toList ++ .name inner.name ::
        (inner.arguments.map .argument ++ inner.directives.map .directive ++
          (inner.selectionSet.map Node.selectionSet).toList)
  | .spread inner => .name inner.name :: inner.directives.map .directive
  | .inline inner =>
      (inner.typeCondition.map NamedType.node).toList ++ inner.directives.map .directive ++
        [.selectionSet inner.selectionSet]

def TypeBody.members : TypeBody → List Node
  | .scalar => []
  | .object _ fields | .interface _ fields => fields.map .fieldDefinition
  | .union members => members.map NamedType.node
  | .enum values => values.map .enumValueDefinition
  | .inputObject fields => fields.map .inputValueDefinition

def TypeBody.children (body : TypeBody) (name : Name) (directives : List Directive) : List Node :=
  .name name :: (body.interfaces.map NamedType.node ++ directives.map .directive ++ body.members)

def Definition.children : Definition → List Node
  | .operation inner =>
      (inner.name.map Node.name).toList ++ inner.variableDefinitions.map .variableDefinition ++
        inner.directives.map .directive ++ [.selectionSet inner.selectionSet]
  | .fragment inner =>
      .name inner.name :: (inner.variableDefinitions.map .variableDefinition ++
        inner.typeCondition.node :: (inner.directives.map .directive ++
          [.selectionSet inner.selectionSet]))
  | .schema inner =>
      descriptionNodes inner.description ++ inner.directives.map .directive ++
        inner.operationTypes.map .operationType
  | .type inner =>
      descriptionNodes inner.description ++ inner.body.children inner.name inner.directives
  | .directive inner =>
      descriptionNodes inner.description ++ .name inner.name ::
        (inner.arguments.map .inputValueDefinition ++ inner.locations.map .name)
  | .schemaExtension inner =>
      inner.directives.map .directive ++ inner.operationTypes.map .operationType
  | .typeExtension inner => inner.body.children inner.name inner.directives

def Node.children : Node → List Node
  | .name _ => []
  | .document inner => inner.definitions.map .definition
  | .definition inner => inner.children
  | .variableDefinition inner =>
      .value (.var inner.declared) :: .type inner.type ::
        (defaultNodes inner.defaultValue ++ inner.directives.map .directive)
  | .selectionSet inner => inner.selections.map .selection
  | .selection inner => inner.children
  | .argument inner => [.name inner.name, .value inner.value]
  | .value inner => inner.children
  | .objectField inner => [.name inner.name, .value inner.value]
  | .directive inner => .name inner.name :: inner.arguments.map .argument
  | .type inner => inner.children
  | .operationType inner => [inner.type.node]
  | .fieldDefinition inner =>
      descriptionNodes inner.description ++ .name inner.name ::
        (inner.arguments.map .inputValueDefinition ++ .type inner.type ::
          inner.directives.map .directive)
  | .inputValueDefinition inner =>
      descriptionNodes inner.description ++ .name inner.name :: .type inner.type ::
        (defaultNodes inner.defaultValue ++ inner.directives.map .directive)
  | .enumValueDefinition inner =>
      descriptionNodes inner.description ++ .name inner.name :: inner.directives.map .directive

/-- A node stands in another one at any depth, or is that node. -/
inductive Node.Inside : Node → Node → Prop
  | self {node : Node} : Inside node node
  | child {inner child node : Node} (member : child ∈ node.children)
      (inside : Inside inner child) : Inside inner node

/-- What goes down to children holds everywhere inside. -/
theorem Node.Inside.induct {holds : Node → Prop}
    (step : ∀ node, holds node → ∀ child ∈ node.children, holds child) {inner outer : Node}
    (inside : inner.Inside outer) (start : holds outer) : holds inner := by
  induction inside with
  | self => exact start
  | child member _ ih => exact ih (step _ start _ member)

/-- The lexemes of a node without those that may be left out. -/
def Node.lexemes : Node → List Lexeme
  | .name inner => inner.lexemes
  | .document inner => inner.lexemes
  | .definition inner => inner.lexemes false
  | .variableDefinition inner => inner.lexemes
  | .selectionSet inner => inner.lexemes
  | .selection inner => inner.lexemes
  | .argument inner => inner.lexemes
  | .value inner => inner.lexemes
  | .objectField inner => inner.lexemes
  | .directive inner => inner.lexemes
  | .type inner => inner.lexemes
  | .operationType inner => inner.lexemes
  | .fieldDefinition inner => inner.lexemes
  | .inputValueDefinition inner => inner.lexemes
  | .enumValueDefinition inner => inner.lexemes

/-! The lexemes of a node hold those of its children. -/

def NodesProper (nodes : List Node) : Prop := ∀ node ∈ nodes, AllProper node.lexemes

@[simp] theorem nodesProper_nil : NodesProper [] := by
  rintro _ ⟨⟩

@[simp] theorem nodesProper_cons {node : Node} {rest : List Node} :
    NodesProper (node :: rest) ↔ AllProper node.lexemes ∧ NodesProper rest := List.forall_mem_cons

@[simp] theorem nodesProper_append {left right : List Node} :
    NodesProper (left ++ right) ↔ NodesProper left ∧ NodesProper right := List.forall_mem_append

@[simp] theorem nodesProper_map {wrap : α → Node} {items : List α} :
    NodesProper (items.map wrap) ↔ ∀ item ∈ items, AllProper (wrap item).lexemes :=
  List.forall_mem_map

theorem nodesProper_optional {wrap : α → Node} {spell : α → List Lexeme}
    (same : ∀ item, (wrap item).lexemes = spell item) {part : Option α} :
    NodesProper (part.map wrap).toList ↔ AllProper (optionalLexemes spell part) := by
  cases part with
  | none => simp [optionalLexemes]
  | some item => simp [optionalLexemes, same]

theorem nodesProper_description {description : Option StringValue} :
    NodesProper (descriptionNodes description) ↔ AllProper (descriptionLexemes description) := by
  cases description <;> simp [descriptionNodes, descriptionLexemes, Node.lexemes, Value.lexemes]

theorem nodesProper_default {value : Option Value} :
    NodesProper (defaultNodes value) ↔ AllProper (defaultLexemes value) := by
  cases value <;> simp [defaultNodes, defaultLexemes, Node.lexemes, Lexeme.isProper]

theorem allProper_arguments {arguments : List Argument} :
    AllProper (argumentsLexemes arguments) ↔ NodesProper (arguments.map .argument) := by
  simp [argumentsLexemes, allProper_enclose, allProper_flatMap, Node.lexemes]

theorem allProper_directives {directives : List Directive} :
    AllProper (directivesLexemes directives) ↔ NodesProper (directives.map .directive) := by
  simp [directivesLexemes, allProper_flatMap, Node.lexemes]

theorem NamedType.lexemes_node (type : NamedType) : type.node.lexemes = type.lexemes := rfl

theorem Value.children_proper {value : Value} (proper : AllProper value.lexemes) :
    NodesProper value.children := by
  cases value with
  | list items loc =>
      simpa [Value.lexemes, Value.children, itemsLexemes_eq, allProper_flatMap, Node.lexemes,
        Lexeme.isProper] using proper
  | object fields loc =>
      simpa [Value.lexemes, Value.children, fieldsLexemes_eq, allProper_flatMap, Node.lexemes,
        Lexeme.isProper] using proper
  | var reference =>
      simpa [Value.lexemes, Value.children, Variable.lexemes, Node.lexemes, Lexeme.isProper]
        using proper
  | _ => exact nodesProper_nil

theorem TypeRef.children_proper {type : TypeRef} (proper : AllProper type.lexemes) :
    NodesProper type.children := by
  rcases type with (type | ⟨item, loc⟩) | ⟨type, loc⟩
  · exact nodesProper_cons.mpr ⟨proper, nodesProper_nil⟩
  · simpa [TypeRef.lexemes, NullableType.lexemes, TypeRef.children, Node.lexemes, Lexeme.isProper]
      using proper
  · simpa [TypeRef.lexemes, TypeRef.children, Node.lexemes, Lexeme.isProper] using proper

theorem allProper_alias {key : Option Name} :
    AllProper (aliasLexemes key) ↔ NodesProper (key.map Node.name).toList := by
  cases key <;> simp [aliasLexemes, Node.lexemes, Lexeme.isProper]

theorem allProper_condition {type : Option NamedType} :
    AllProper (conditionLexemes type) ↔ NodesProper (type.map NamedType.node).toList := by
  have word : (Lexeme.name "on").isProper = true := by decide
  cases type <;> simp [conditionLexemes, NamedType.lexemes_node, word]

theorem Selection.children_proper {selection : Selection} (proper : AllProper selection.lexemes) :
    NodesProper selection.children := by
  cases selection with
  | field inner =>
      obtain ⟨responseAlias, name, arguments, directives, set, loc⟩ := inner
      simp only [Selection.lexemes, Field.lexemes, allProper_append, allProper_arguments,
        allProper_directives, allProper_alias, optionalSetLexemes_eq] at proper
      obtain ⟨⟨⟨⟨key, named⟩, arguments⟩, directives⟩, spelled⟩ := proper
      have inside : NodesProper (set.map Node.selectionSet).toList :=
        (nodesProper_optional fun _ => rfl).mpr spelled
      simp only [Selection.children, nodesProper_append, nodesProper_cons]
      exact ⟨key, named, ⟨arguments, directives⟩, inside⟩
  | spread inner =>
      simp only [Selection.lexemes, FragmentSpread.lexemes, allProper_cons, allProper_append,
        allProper_directives] at proper
      simp only [Selection.children, nodesProper_cons]
      exact proper.2
  | inline inner =>
      obtain ⟨typeCondition, directives, set, loc⟩ := inner
      simp only [Selection.lexemes, InlineFragment.lexemes, allProper_cons, allProper_append,
        allProper_directives, allProper_condition] at proper
      obtain ⟨_, ⟨condition, directives⟩, set⟩ := proper
      simp only [Selection.children, nodesProper_append, nodesProper_cons]
      exact ⟨⟨condition, directives⟩, set, nodesProper_nil⟩

theorem allProper_variableDefinitions {definitions : List VariableDefinition} :
    AllProper (variableDefinitionsLexemes definitions) ↔
      NodesProper (definitions.map .variableDefinition) := by
  simp [variableDefinitionsLexemes, allProper_enclose, allProper_flatMap, Node.lexemes]

theorem allProper_argumentDefinitions {definitions : List InputValueDefinition} :
    AllProper (argumentDefinitionsLexemes definitions) ↔
      NodesProper (definitions.map .inputValueDefinition) := by
  simp [argumentDefinitionsLexemes, allProper_enclose, allProper_flatMap, Node.lexemes]

theorem allProper_operationTypes {definitions : List OperationTypeDefinition} :
    AllProper (bracedLexemes OperationTypeDefinition.lexemes definitions) ↔
      NodesProper (definitions.map .operationType) := by
  simp [bracedLexemes, allProper_enclose, allProper_flatMap, Node.lexemes]

theorem TypeBody.interfaces_proper {body : TypeBody}
    (proper : AllProper (body.interfacesLexemes false)) :
    NodesProper (body.interfaces.map NamedType.node) := by
  unfold TypeBody.interfacesLexemes GraphQL.interfacesLexemes at proper
  split at proper
  · rename_i none
    simp [List.isEmpty_iff.mp none]
  · simpa [optionalMark, allProper_separated, NamedType.lexemes_node] using
      (allProper_cons.mp proper).2

theorem TypeBody.members_proper {body : TypeBody} (proper : AllProper (body.membersLexemes false)) :
    NodesProper body.members := by
  cases body with
  | scalar => exact nodesProper_nil
  | object interfaces fields | interface interfaces fields | enum fields | inputObject fields =>
      simpa [membersLexemes, members, bracedLexemes, allProper_enclose, allProper_flatMap,
        Node.lexemes] using proper
  | union types =>
      simp only [membersLexemes, unionMembersLexemes] at proper
      split at proper
      · rename_i none
        simp [members, List.isEmpty_iff.mp none]
      · simpa [members, optionalMark, allProper_separated, NamedType.lexemes_node,
          Lexeme.isProper] using proper

theorem TypeBody.children_proper {body : TypeBody} {name : Name} {directives : List Directive}
    (proper : AllProper (body.lexemes false name directives)) :
    NodesProper (body.children name directives) := by
  simp only [TypeBody.lexemes, allProper_append, allProper_directives] at proper
  obtain ⟨⟨⟨named, interfaces⟩, directives⟩, members⟩ := proper
  simp only [TypeBody.children, nodesProper_cons, nodesProper_append]
  exact ⟨named, ⟨interfaces_proper interfaces, directives⟩, members_proper members⟩

theorem OperationDefinition.children_proper {operation : OperationDefinition}
    (proper : AllProper (operation.lexemes false)) :
    NodesProper (Definition.operation operation).children := by
  unfold OperationDefinition.lexemes at proper
  simp only [Definition.children, nodesProper_append, nodesProper_cons]
  split at proper
  · rename_i short
    simp only [isShorthand, Bool.not_false, Bool.and_true, Bool.and_eq_true,
      Option.isNone_iff_eq_none, List.isEmpty_iff] at short
    simp [short, Node.lexemes, proper]
  · simp only [allProper_cons, allProper_append, allProper_variableDefinitions,
      allProper_directives] at proper
    obtain ⟨_, ⟨⟨named, declared⟩, directives⟩, set⟩ := proper
    have name : NodesProper (operation.name.map Node.name).toList :=
      (nodesProper_optional fun _ => rfl).mpr named
    exact ⟨⟨⟨name, declared⟩, directives⟩, set, nodesProper_nil⟩

theorem Definition.children_proper {definition : Definition}
    (proper : AllProper (definition.lexemes false)) : NodesProper definition.children := by
  cases definition with
  | operation inner => exact OperationDefinition.children_proper proper
  | fragment inner =>
      simp only [Definition.lexemes, FragmentDefinition.lexemes, allProper_cons, allProper_append,
        allProper_variableDefinitions, allProper_directives] at proper
      obtain ⟨_, ⟨named, declared⟩, _, ⟨type, directives⟩, set⟩ := proper
      simp only [Definition.children, nodesProper_cons, nodesProper_append]
      exact ⟨named, declared, type, directives, set, nodesProper_nil⟩
  | schema inner =>
      simp only [Definition.lexemes, SchemaDefinition.lexemes, allProper_cons, allProper_append,
        allProper_directives, allProper_operationTypes] at proper
      obtain ⟨description, _, directives, operations⟩ := proper
      simp only [Definition.children, nodesProper_append, nodesProper_description]
      exact ⟨⟨description, directives⟩, operations⟩
  | type inner =>
      simp only [Definition.lexemes, TypeDefinition.lexemes, allProper_cons,
        allProper_append] at proper
      obtain ⟨description, _, body⟩ := proper
      simp only [Definition.children, nodesProper_append, nodesProper_description]
      exact ⟨description, TypeBody.children_proper body⟩
  | directive inner =>
      simp only [Definition.lexemes, DirectiveDefinition.lexemes, allProper_cons, allProper_append,
        allProper_argumentDefinitions, allProper_separated] at proper
      obtain ⟨description, _, _, ⟨⟨named, arguments⟩, _⟩, _, _, locations⟩ := proper
      simp only [Definition.children, nodesProper_append, nodesProper_cons,
        nodesProper_description]
      exact ⟨description, named, arguments, nodesProper_map.mpr locations⟩
  | schemaExtension inner =>
      simp only [Definition.lexemes, SchemaExtension.lexemes, allProper_cons, allProper_append,
        allProper_directives, allProper_operationTypes] at proper
      simp only [Definition.children, nodesProper_append]
      exact proper.2.2
  | typeExtension inner =>
      simp only [Definition.lexemes, TypeExtension.lexemes, allProper_cons] at proper
      exact TypeBody.children_proper proper.2.2

theorem Node.children_proper {node : Node} (proper : AllProper node.lexemes) :
    NodesProper node.children := by
  cases node with
  | name inner => exact nodesProper_nil
  | document inner => exact nodesProper_map.mpr (allProper_flatMap.mp proper)
  | definition inner => exact Definition.children_proper proper
  | variableDefinition inner =>
      simp only [Node.lexemes, VariableDefinition.lexemes, allProper_append, allProper_cons,
        allProper_directives] at proper
      obtain ⟨declared, _, ⟨type, default⟩, directives⟩ := proper
      simp only [Node.children, nodesProper_cons, nodesProper_append, nodesProper_default]
      exact ⟨declared, type, default, directives⟩
  | selectionSet inner =>
      obtain ⟨selections, loc⟩ := inner
      simpa [Node.lexemes, SelectionSet.lexemes, allProper_enclose, selectionsLexemes_eq,
        allProper_flatMap, Node.children] using proper
  | selection inner => exact Selection.children_proper proper
  | argument inner =>
      simp only [Node.lexemes, Argument.lexemes, allProper_append, allProper_cons] at proper
      exact nodesProper_cons.mpr ⟨proper.1, nodesProper_cons.mpr ⟨proper.2.2, nodesProper_nil⟩⟩
  | value inner => exact Value.children_proper proper
  | objectField inner =>
      obtain ⟨name, value, loc⟩ := inner
      simp only [Node.lexemes, ObjectField.lexemes, allProper_append, allProper_cons] at proper
      exact nodesProper_cons.mpr ⟨proper.1, nodesProper_cons.mpr ⟨proper.2.2, nodesProper_nil⟩⟩
  | directive inner =>
      simp only [Node.lexemes, Directive.lexemes, allProper_append, allProper_cons,
        allProper_arguments] at proper
      exact nodesProper_cons.mpr proper.2
  | type inner => exact TypeRef.children_proper proper
  | operationType inner =>
      simp only [Node.lexemes, OperationTypeDefinition.lexemes, allProper_cons] at proper
      exact nodesProper_cons.mpr ⟨proper.2.2, nodesProper_nil⟩
  | fieldDefinition inner =>
      simp only [Node.lexemes, FieldDefinition.lexemes, allProper_append, allProper_cons,
        allProper_directives, allProper_argumentDefinitions] at proper
      obtain ⟨⟨⟨description, named⟩, arguments⟩, _, type, directives⟩ := proper
      simp only [Node.children, nodesProper_append, nodesProper_cons, nodesProper_description]
      exact ⟨description, named, arguments, type, directives⟩
  | inputValueDefinition inner =>
      simp only [Node.lexemes, InputValueDefinition.lexemes, allProper_append, allProper_cons,
        allProper_directives] at proper
      obtain ⟨⟨description, named⟩, _, ⟨type, default⟩, directives⟩ := proper
      simp only [Node.children, nodesProper_append, nodesProper_cons, nodesProper_description,
        nodesProper_default]
      exact ⟨description, named, type, default, directives⟩
  | enumValueDefinition inner =>
      simp only [Node.lexemes, EnumValueDefinition.lexemes, allProper_append,
        allProper_directives] at proper
      obtain ⟨⟨description, named⟩, directives⟩ := proper
      simp only [Node.children, nodesProper_append, nodesProper_cons, nodesProper_description]
      exact ⟨description, named, directives⟩

end GraphQL

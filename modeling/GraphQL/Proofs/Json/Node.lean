import GraphQL.Printer.Json
import GraphQL.Proofs.Json.TypeSystem

/-!
Nodes of every kind read back from JSON. By induction on the levels of objects: the decoder of
a node's kind inverts the node's encoder where the nodes inside are read back.
-/

namespace GraphQL

open Json

namespace Decode

variable {inner : Inner} {levels : Nat}

theorem textValue_nodeJson {build : String → Option Location → Value} {kind : Kind}
    (text : String) (loc : Option Location) :
    textValue build (nodeJson kind [("value", .string text)] loc) =
      .ok (.value (build text (unsourced loc))) :=
  bind_ok rfl (bind_ok (locOf_nodeJson rfl) rfl)

variable (reads : Inverts levels inner Node.toJson (·.relocate unsourced))
include reads

theorem ofKind_value (found : Value) (within : found.toJson.depth ≤ levels + 1) :
    ofKind inner found.kind found.toJson = .ok (.value (found.relocate unsourced)) := by
  cases found with
  | var reference => exact map_ok _ (Variable.inverts _ reference within)
  | int text loc | float text loc | enum text loc => exact textValue_nodeJson text loc
  | string literal => exact map_ok _ (StringValue.inverts _ literal within)
  | boolean value loc => exact bind_ok rfl (bind_ok (locOf_nodeJson rfl) rfl)
  | null loc => exact bind_ok (locOf_nodeJson rfl) rfl
  | list items loc =>
      rw [Value.toJson, itemsJson_eq] at within ⊢
      rw [Value.relocate, relocateItems_eq]
      exact bind_ok ((value_inverts reads).listed within "values" rfl)
        (bind_ok (locOf_nodeJson rfl) rfl)
  | object fields loc =>
      rw [Value.toJson, fieldsJson_eq] at within ⊢
      rw [Value.relocate, relocateFields_eq]
      have fields := ((objectField_inverts reads).mono (Nat.le_succ _)).listed within "fields" rfl
      exact bind_ok fields (bind_ok (locOf_nodeJson rfl) rfl)

theorem ofKind_type (found : TypeRef) (within : found.toJson.depth ≤ levels + 1) :
    ofKind inner found.kind found.toJson = .ok (.type (found.relocate unsourced)) := by
  rcases found with (type | ⟨item, loc⟩) | ⟨type, loc⟩
  · exact map_ok _ (NamedType.inverts _ type within)
  · exact bind_ok ((type_inverts reads).required within "type" rfl)
      (bind_ok (locOf_nodeJson rfl) rfl)
  · exact bind_ok ((nullableType_inverts reads).required within "type" rfl)
      (bind_ok (locOf_nodeJson rfl) rfl)

theorem ofKind_selection (found : Selection) (within : found.toJson.depth ≤ levels + 1) :
    ofKind inner found.kind found.toJson = .ok (.selection (found.relocate unsourced)) := by
  cases found with
  | field field => exact map_ok _ (field_inverts reads field within)
  | spread spread => exact map_ok _ (fragmentSpread_inverts reads spread within)
  | inline fragment => exact map_ok _ (inlineFragment_inverts reads fragment within)

theorem ofKind_definition (found : Definition) (within : found.toJson.depth ≤ levels + 1) :
    ofKind inner found.kind found.toJson = .ok (.definition (found.relocate unsourced)) := by
  cases found with
  | operation operation => exact map_ok _ (operationDefinition_inverts reads operation within)
  | fragment fragment => exact map_ok _ (fragmentDefinition_inverts reads fragment within)
  | schema schema => exact map_ok _ (schemaDefinition_inverts reads schema within)
  | type type =>
      have chosen : ofKind inner type.body.form.definitionKind type.toJson =
          ofKind.typed inner type.toJson type.body.form := by
        cases type.body.form <;> rfl
      exact chosen.trans (map_ok _ (typeDefinition_inverts reads type within))
  | directive directive => exact map_ok _ (directiveDefinition_inverts reads directive within)
  | schemaExtension schema => exact map_ok _ (schemaExtension_inverts reads schema within)
  | typeExtension type =>
      have chosen : ofKind inner type.body.form.extensionKind type.toJson =
          ofKind.extended inner type.toJson type.body.form := by
        cases type.body.form <;> rfl
      exact chosen.trans (map_ok _ (typeExtension_inverts reads type within))

theorem ofKind_node (node : Node) (within : node.toJson.depth ≤ levels + 1) :
    ofKind inner node.kind node.toJson = .ok (node.relocate unsourced) := by
  cases node with
  | name name => exact map_ok _ (Name.inverts _ name within)
  | document document => exact map_ok _ (document_inverts reads document within)
  | definition found => exact ofKind_definition reads found within
  | variableDefinition definition =>
      exact map_ok _ (variableDefinition_inverts reads definition within)
  | selectionSet set => exact map_ok _ (selectionSet_inverts reads set within)
  | selection found => exact ofKind_selection reads found within
  | argument argument => exact map_ok _ (argument_inverts reads argument within)
  | value found => exact ofKind_value reads found within
  | objectField field => exact map_ok _ (objectField_inverts reads field within)
  | directive directive => exact map_ok _ (directive_inverts reads directive within)
  | type found => exact ofKind_type reads found within
  | operationType definition =>
      exact map_ok _ (OperationTypeDefinition.inverts levels definition within)
  | fieldDefinition field => exact map_ok _ (fieldDefinition_inverts reads field within)
  | inputValueDefinition definition =>
      exact map_ok _ (inputValueDefinition_inverts reads definition within)
  | enumValueDefinition value => exact map_ok _ (enumValueDefinition_inverts reads value within)

end Decode

theorem Node.ofJsonWithin_inverts (levels : Nat) :
    Inverts levels (ofJsonWithin levels) toJson (·.relocate unsourced) := by
  induction levels with
  | zero => exact fun node within => absurd (depth_pos node.toJson) (Nat.not_lt.mpr within)
  | succ levels ih =>
      intro node within
      rw [ofJsonWithin, node.kind?_toJson]
      exact Decode.ofKind_node ih node within

theorem Node.ofJson_toJson (node : Node) : ofJson node.toJson = .ok (node.relocate unsourced) :=
  ofJsonWithin_inverts node.toJson.depth node (Nat.le_refl _)

theorem Node.ofJson_inverts (levels : Nat) :
    Inverts levels ofJson toJson (·.relocate unsourced) :=
  fun node _ => node.ofJson_toJson

/-- Decoding undoes encoding but for the sources of locations. -/
theorem decode_encode :
    (∀ node : Node, Node.ofJson? node.toJson = .ok (some (node.relocate unsourced))) ∧
    (∀ item : Definition, Decode.definition Node.ofJson item.toJson =
      .ok (item.relocate unsourced)) ∧
    (∀ item : Selection, Decode.selection Node.ofJson item.toJson =
      .ok (item.relocate unsourced)) ∧
    (∀ item : Value, Decode.value Node.ofJson item.toJson = .ok (item.relocate unsourced)) ∧
    (∀ item : TypeRef, Decode.type Node.ofJson item.toJson = .ok (item.relocate unsourced)) ∧
    (∀ item : NullableType, Decode.nullableType Node.ofJson item.toJson =
      .ok (item.relocate unsourced)) ∧
    (∀ node : Node, node.toJson.printNode = .ok node.print) := by
  have reads (levels : Nat) := Node.ofJson_inverts levels
  refine ⟨fun node => ?_, fun item => ?_, fun item => ?_, fun item => ?_, fun item => ?_,
    fun item => ?_, fun node => ?_⟩
  · rw [Node.ofJson?, node.kind?_toJson, node.ofJson_toJson]
    rfl
  · exact Decode.definition_inverts (reads _) item (Nat.le_refl _)
  · exact Decode.selection_inverts (reads _) item (Nat.le_refl _)
  · exact Decode.value_inverts (reads _) item (Nat.le_refl _)
  · exact Decode.type_inverts (reads _) item (Nat.le_refl _)
  · exact Decode.nullableType_inverts (reads _) item (Nat.le_refl _)
  · simp only [printNode, node.kind?_toJson, node.ofJson_toJson, Node.print_relocate]

end GraphQL

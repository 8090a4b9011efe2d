import GraphQL.Proofs.Json.Executable

/-!
The decoders of type-system forms invert their encoders.
-/

namespace GraphQL

open Json

theorem OperationTypeDefinition.inverts (levels : Nat) :
    Inverts (levels + 1) Decode.operationTypeDefinition OperationTypeDefinition.toJson
      (·.relocate unsourced) :=
  fun definition within => bind_ok (OperationType.ofJson_toJson definition.operation)
    (bind_ok ((NamedType.inverts levels).required within "type" rfl)
      (bind_ok (locOf_nodeJson rfl) rfl))

namespace Decode

section
variable {kind : Kind} {entries : List (String × Json)} {loc : Option Location} {levels : Nat}
  (within : (nodeJson kind entries loc).depth ≤ levels + 1)
include within

theorem descriptionOf_nodeJson {description : Option StringValue}
    (found : (("kind", .string kind.text) :: entries).lookup "description" =
      some (.ofOption StringValue.toJson description)) :
    descriptionOf (nodeJson kind entries loc) =
      .ok (description.map (·.relocate unsourced)) :=
  (StringValue.inverts levels).optional within "description"
    (fun literal => (Node.value (.string literal)).toJson_ne_null) found

theorem operationTypesOf_nodeJson {definitions : List OperationTypeDefinition}
    (found : (("kind", .string kind.text) :: entries).lookup "operationTypes" =
      some (.ofList OperationTypeDefinition.toJson definitions)) :
    operationTypesOf (nodeJson kind entries loc) =
      .ok (definitions.map (·.relocate unsourced)) :=
  ((OperationTypeDefinition.inverts levels).mono (Nat.le_succ _)).listed within "operationTypes"
    found

theorem interfacesOf_nodeJson {interfaces : List NamedType}
    (found : (("kind", .string kind.text) :: entries).lookup "interfaces" =
      some (.ofList NamedType.toJson interfaces)) :
    interfacesOf (nodeJson kind entries loc) = .ok (interfaces.map (·.relocate unsourced)) :=
  (NamedType.inverts levels).listed within "interfaces" found

end

variable {inner : Inner} {levels : Nat}
  (reads : Inverts levels inner Node.toJson (·.relocate unsourced))
include reads

theorem schemaDefinition_inverts :
    Inverts (levels + 1) (schemaDefinition inner) SchemaDefinition.toJson
      (·.relocate unsourced) :=
  fun _ within => bind_ok (descriptionOf_nodeJson within rfl)
    (bind_ok (directivesOf_nodeJson reads within rfl)
      (bind_ok (operationTypesOf_nodeJson within rfl) (bind_ok (locOf_nodeJson rfl) rfl)))

theorem schemaExtension_inverts :
    Inverts (levels + 1) (schemaExtension inner) SchemaExtension.toJson (·.relocate unsourced) :=
  fun _ within => bind_ok (directivesOf_nodeJson reads within rfl)
    (bind_ok (operationTypesOf_nodeJson within rfl) (bind_ok (locOf_nodeJson rfl) rfl))

theorem inputValueDefinition_inverts :
    Inverts (levels + 1) (inputValueDefinition inner) InputValueDefinition.toJson
      (·.relocate unsourced) := by
  intro definition within
  have type := (type_inverts reads).required within "type" rfl
  have defaultValue := (value_inverts reads).optional within "defaultValue"
    (fun value => (Node.value value).toJson_ne_null) rfl
  exact bind_ok (descriptionOf_nodeJson within rfl) (bind_ok (nameOf_nodeJson rfl)
    (bind_ok type (bind_ok defaultValue
      (bind_ok (directivesOf_nodeJson reads within rfl) (bind_ok (locOf_nodeJson rfl) rfl)))))

theorem fieldDefinition_inverts :
    Inverts (levels + 1) (fieldDefinition inner) FieldDefinition.toJson (·.relocate unsourced) := by
  intro field within
  have arguments := ((inputValueDefinition_inverts reads).mono (Nat.le_succ _)).listed within
    "arguments" rfl
  have type := (type_inverts reads).required within "type" rfl
  exact bind_ok (descriptionOf_nodeJson within rfl) (bind_ok (nameOf_nodeJson rfl)
    (bind_ok arguments (bind_ok type
      (bind_ok (directivesOf_nodeJson reads within rfl) (bind_ok (locOf_nodeJson rfl) rfl)))))

theorem enumValueDefinition_inverts :
    Inverts (levels + 1) (enumValueDefinition inner) EnumValueDefinition.toJson
      (·.relocate unsourced) :=
  fun _ within => bind_ok (descriptionOf_nodeJson within rfl) (bind_ok (nameOf_nodeJson rfl)
    (bind_ok (directivesOf_nodeJson reads within rfl) (bind_ok (locOf_nodeJson rfl) rfl)))

theorem directiveDefinition_inverts :
    Inverts (levels + 1) (directiveDefinition inner) DirectiveDefinition.toJson
      (·.relocate unsourced) := by
  intro directive within
  have arguments := ((inputValueDefinition_inverts reads).mono (Nat.le_succ _)).listed within
    "arguments" rfl
  have locations := (Name.inverts levels).listed within "locations" rfl
  exact bind_ok (descriptionOf_nodeJson within rfl) (bind_ok (nameOf_nodeJson rfl)
    (bind_ok arguments (bind_ok (flag_nodeJson rfl)
      (bind_ok locations (bind_ok (locOf_nodeJson rfl) rfl)))))

theorem document_inverts :
    Inverts (levels + 1) (document inner) Document.toJson (·.relocate unsourced) :=
  fun _ within => bind_ok ((definition_inverts reads).listed within "definitions" rfl)
    (bind_ok (locOf_nodeJson rfl) rfl)

def bodyKeys : List String := ["interfaces", "fields", "types", "values"]

/-- The body is read the same in a definition and in an extension: other parts of the object
stand under other keys. -/
theorem typeBody_nodeJson {kind : Kind} {entries : List (String × Json)} {loc : Option Location}
    (within : (nodeJson kind entries loc).depth ≤ levels + 1) (body : TypeBody)
    (held : ∀ key ∈ bodyKeys, (("kind", .string kind.text) :: entries).lookup key =
      (body.interfaceEntries ++ body.memberEntries).lookup key) :
    typeBody inner (nodeJson kind entries loc) body.form = .ok (body.relocate unsourced) := by
  have interfaces := held "interfaces" (by decide)
  have members := held "fields" (by decide)
  cases body with
  | scalar => rfl
  | object found fields | interface found fields =>
      have fields := ((fieldDefinition_inverts reads).mono (Nat.le_succ _)).listed within "fields"
        members
      exact bind_ok (interfacesOf_nodeJson within interfaces) (bind_ok fields rfl)
  | union types =>
      have types := (NamedType.inverts levels).listed within "types" (held "types" (by decide))
      exact bind_ok types rfl
  | enum values =>
      have values := ((enumValueDefinition_inverts reads).mono (Nat.le_succ _)).listed within
        "values" (held "values" (by decide))
      exact bind_ok values rfl
  | inputObject fields =>
      have fields := ((inputValueDefinition_inverts reads).mono (Nat.le_succ _)).listed within
        "fields" members
      exact bind_ok fields rfl

theorem typeDefinition_inverts (type : TypeDefinition)
    (within : type.toJson.depth ≤ levels + 1) :
    typeDefinition inner type.body.form type.toJson = .ok (type.relocate unsourced) := by
  obtain ⟨description, name, directives, body, loc⟩ := type
  have held : ∀ key ∈ bodyKeys, (("kind", .string body.form.definitionKind.text) ::
      descriptionEntry description :: body.entries name directives).lookup key =
      (body.interfaceEntries ++ body.memberEntries).lookup key := by
    simp only [bodyKeys, List.forall_mem_cons]
    cases body <;> exact ⟨rfl, rfl, rfl, rfl, nofun⟩
  exact bind_ok (descriptionOf_nodeJson within rfl) (bind_ok (nameOf_nodeJson rfl)
    (bind_ok (directivesOf_nodeJson reads within (by cases body <;> rfl))
      (bind_ok (typeBody_nodeJson reads within body held)
        (bind_ok (locOf_nodeJson (by cases body <;> rfl)) rfl))))

theorem typeExtension_inverts (type : TypeExtension)
    (within : type.toJson.depth ≤ levels + 1) :
    typeExtension inner type.body.form type.toJson = .ok (type.relocate unsourced) := by
  obtain ⟨name, directives, body, loc⟩ := type
  have held : ∀ key ∈ bodyKeys, (("kind", .string body.form.extensionKind.text) ::
      body.entries name directives).lookup key =
      (body.interfaceEntries ++ body.memberEntries).lookup key := by
    simp only [bodyKeys, List.forall_mem_cons]
    cases body <;> exact ⟨rfl, rfl, rfl, rfl, nofun⟩
  exact bind_ok (nameOf_nodeJson rfl)
    (bind_ok (directivesOf_nodeJson reads within (by cases body <;> rfl))
      (bind_ok (typeBody_nodeJson reads within body held)
        (bind_ok (locOf_nodeJson (by cases body <;> rfl)) rfl)))

end Decode

end GraphQL

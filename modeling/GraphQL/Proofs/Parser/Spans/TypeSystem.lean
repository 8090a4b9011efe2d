import GraphQL.Proofs.Parser.Reads.TypeSystem
import GraphQL.Proofs.Parser.Spans.Executable

/-!
Where definitions of the type system and their parts are read.
-/

namespace GraphQL.Parser

theorem description_row : ReadsRow description descriptionNodes := by
  intro s s' found parsed
  unfold description at parsed
  rw [current_eq] at parsed
  split at parsed
  · rename_i isString
    obtain ⟨literal, s₁, read, parsed⟩ := bind_ok parsed
    cases parsed
    simp only [isDescription, Bool.or_eq_true, decide_eq_true_eq] at isString
    exact .one (stringValue_spans isString read)
  · cases parsed
    exact .nil .stay

theorem operationTypeDefinition_spans :
    ReadsNode operationTypeDefinition .operationType := by
  intro s s' found parsed
  have whole := (operationTypeDefinition_reads rfl parsed).1
  unfold operationTypeDefinition at parsed
  rw [current_eq] at parsed
  obtain ⟨sort, s₁, worded, parsed⟩ := bind_ok parsed
  obtain ⟨_, s₂, behind, parsed⟩ := bind_ok parsed
  obtain ⟨type, s₃, named, parsed⟩ := bind_ok parsed
  obtain ⟨rfl, rfl⟩ := located_ok parsed
  have word := (operationType_reads rfl worded).1
  have colon := (fixes_mark .colon).expect_ok behind
  have front : Reaches s s₂ := (Reaches.of_mark word rfl).trans (.of_mark colon rfl)
  exact .node rfl whole rfl (OperationTypeDefinition.lexemes_ne_nil _)
    ((Row.one (namedType_spans named)).led front)

section
variable {levels : Nat}

theorem schemaDefinition_spans :
    ReadsNode (schemaDefinition levels) fun found => .definition (.schema found) := by
  intro s s' found parsed
  have whole := (schemaDefinition_reads rfl parsed).1
  unfold schemaDefinition at parsed
  rw [current_eq] at parsed
  obtain ⟨text, s₁, described, parsed⟩ := bind_ok parsed
  obtain ⟨_, s₂, worded, parsed⟩ := bind_ok parsed
  obtain ⟨marks, s₃, marked, parsed⟩ := bind_ok parsed
  obtain ⟨types, s₄, listed, parsed⟩ := bind_ok parsed
  obtain ⟨rfl, rfl⟩ := located_ok parsed
  have front := (description_row described).closed (.of_mark (expectKeyword_ok worded) rfl)
  exact .node rfl whole ⟨false, rfl⟩ (by simp [SchemaDefinition.lexemes])
    ((front.append (directives_row marked)).append
    (many_row operationTypeDefinition_spans listed))

theorem inputValueDefinition_spans :
    ReadsNode (inputValueDefinition levels) .inputValueDefinition := by
  intro s s' found parsed
  have whole := (inputValueDefinition_reads rfl parsed).1
  unfold inputValueDefinition at parsed
  rw [current_eq] at parsed
  obtain ⟨text, s₁, described, parsed⟩ := bind_ok parsed
  obtain ⟨key, s₂, named, parsed⟩ := bind_ok parsed
  obtain ⟨_, s₃, behind, parsed⟩ := bind_ok parsed
  obtain ⟨type, s₄, typed, parsed⟩ := bind_ok parsed
  obtain ⟨value, s₅, given, parsed⟩ := bind_ok parsed
  obtain ⟨marks, s₆, marked, parsed⟩ := bind_ok parsed
  obtain ⟨rfl, rfl⟩ := located_ok parsed
  have colon := (fixes_mark .colon).expect_ok behind
  have parts := (defaultValue_row given).append (directives_row marked)
  exact .node rfl whole rfl (InputValueDefinition.lexemes_ne_nil _)
    ((description_row described).append (.cons .stay (name_spans named)
      (.cons (.of_mark colon rfl) (typeRef_spans levels typed) parts)))

theorem argumentDefinitions_row :
    ReadsRow (argumentDefinitions levels) fun found => found.map .inputValueDefinition :=
  optionalMany_row inputValueDefinition_spans

theorem fieldDefinition_spans : ReadsNode (fieldDefinition levels) .fieldDefinition := by
  intro s s' found parsed
  have whole := (fieldDefinition_reads rfl parsed).1
  unfold fieldDefinition at parsed
  rw [current_eq] at parsed
  obtain ⟨text, s₁, described, parsed⟩ := bind_ok parsed
  obtain ⟨key, s₂, named, parsed⟩ := bind_ok parsed
  obtain ⟨given, s₃, listed, parsed⟩ := bind_ok parsed
  obtain ⟨_, s₄, behind, parsed⟩ := bind_ok parsed
  obtain ⟨type, s₅, typed, parsed⟩ := bind_ok parsed
  obtain ⟨marks, s₆, marked, parsed⟩ := bind_ok parsed
  obtain ⟨rfl, rfl⟩ := located_ok parsed
  have colon := (fixes_mark .colon).expect_ok behind
  have parts := (argumentDefinitions_row listed).append
    (.cons (.of_mark colon rfl) (typeRef_spans levels typed) (directives_row marked))
  exact .node rfl whole rfl (FieldDefinition.lexemes_ne_nil _)
    ((description_row described).append (.cons .stay (name_spans named) parts))

theorem enumValueName_spans : ReadsNode enumValueName .name := by
  intro s s' found parsed
  unfold enumValueName at parsed
  rw [current_eq] at parsed
  split at parsed
  · exact absurd parsed fail_ne_ok
  · exact name_spans parsed

theorem enumValueDefinition_spans :
    ReadsNode (enumValueDefinition levels) .enumValueDefinition := by
  intro s s' found parsed
  have whole := (enumValueDefinition_reads rfl parsed).1
  unfold enumValueDefinition at parsed
  rw [current_eq] at parsed
  obtain ⟨text, s₁, described, parsed⟩ := bind_ok parsed
  obtain ⟨key, s₂, named, parsed⟩ := bind_ok parsed
  obtain ⟨marks, s₃, marked, parsed⟩ := bind_ok parsed
  obtain ⟨rfl, rfl⟩ := located_ok parsed
  exact .node rfl whole rfl (EnumValueDefinition.lexemes_ne_nil _)
    ((description_row described).append
      (.cons .stay (enumValueName_spans named) (directives_row marked)))

theorem implementsInterfaces_row :
    ReadsRow implementsInterfaces fun found => found.map NamedType.node := by
  intro s s' found parsed
  unfold implementsInterfaces at parsed
  obtain ⟨taken, s₁, worded, parsed⟩ := bind_ok parsed
  rcases acceptKeyword_ok worded with ⟨rfl, word⟩ | ⟨rfl, _, rfl⟩
  · exact (delimited_row namedType_spans parsed).led (.of_mark word rfl)
  · cases parsed
    exact .nil .stay

theorem unionMembers_row : ReadsRow unionMembers fun found => found.map NamedType.node := by
  intro s s' found parsed
  unfold unionMembers at parsed
  obtain ⟨taken, s₁, signed, parsed⟩ := bind_ok parsed
  rcases (fixes_mark .equals).accept_ok signed with ⟨rfl, sign⟩ | ⟨rfl, _, rfl⟩
  · exact (delimited_row namedType_spans parsed).led (.of_mark sign rfl)
  · cases parsed
    exact .nil .stay

theorem fielded_row {make : List NamedType → List FieldDefinition → TypeBody}
    (interfaces_eq : ∀ interfaces fields, (make interfaces fields).interfaces = interfaces)
    (members_eq : ∀ interfaces fields,
      (make interfaces fields).members = fields.map .fieldDefinition) :
    ReadsRow (do
      let interfaces ← implementsInterfaces
      let directives ← directives true levels
      return (directives, make interfaces (← braced (fieldDefinition levels))))
      fun found => found.2.interfaces.map NamedType.node ++ found.1.map .directive ++
        found.2.members := by
  intro s s' found parsed
  obtain ⟨interfaces, s₁, named, parsed⟩ := bind_ok parsed
  obtain ⟨given, s₂, marked, parsed⟩ := bind_ok parsed
  obtain ⟨fields, s₃, listed, parsed⟩ := bind_ok parsed
  cases parsed
  dsimp only
  rw [interfaces_eq, members_eq]
  exact ((implementsInterfaces_row named).append (directives_row marked)).append
    (optionalMany_row fieldDefinition_spans listed)

theorem listed_row {make : List α → TypeBody} {item : Parser (List α)} {nodes : List α → List Node}
    (each : ReadsRow item nodes) (interfaces_eq : ∀ items, (make items).interfaces = [])
    (members_eq : ∀ items, (make items).members = nodes items) :
    ReadsRow (do
      let directives ← directives true levels
      return (directives, make (← item)))
      fun found => found.2.interfaces.map NamedType.node ++ found.1.map .directive ++
        found.2.members := by
  intro s s' found parsed
  obtain ⟨given, s₁, marked, parsed⟩ := bind_ok parsed
  obtain ⟨items, s₂, listed, parsed⟩ := bind_ok parsed
  cases parsed
  dsimp only
  rw [interfaces_eq, members_eq]
  exact (directives_row marked).append (each listed)

theorem typeBody_row (form : TypeForm) :
    ReadsRow (typeBody levels form) fun found =>
      found.2.interfaces.map NamedType.node ++ found.1.map .directive ++ found.2.members := by
  cases form with
  | scalar =>
      intro s s' found parsed
      obtain ⟨given, s₁, marked, parsed⟩ := bind_ok parsed
      cases parsed
      exact (directives_row marked).append (Row.nil .stay)
  | object | interface => exact fielded_row (fun _ _ => rfl) fun _ _ => rfl
  | union => exact listed_row unionMembers_row (fun _ => rfl) fun _ => rfl
  | enum =>
      exact listed_row (optionalMany_row enumValueDefinition_spans) (fun _ => rfl) fun _ => rfl
  | inputObject =>
      exact listed_row (optionalMany_row inputValueDefinition_spans) (fun _ => rfl) fun _ => rfl

theorem typeDefinition_spans (form : TypeForm) :
    ReadsNode (typeDefinition levels form) fun found => .definition (.type found) := by
  intro s s' found parsed
  obtain ⟨full, whole, _⟩ := typeDefinition_reads rfl form parsed
  unfold typeDefinition at parsed
  rw [current_eq] at parsed
  obtain ⟨text, s₁, described, parsed⟩ := bind_ok parsed
  obtain ⟨_, s₂, worded, parsed⟩ := bind_ok parsed
  obtain ⟨key, s₃, named, parsed⟩ := bind_ok parsed
  obtain ⟨⟨marks, body⟩, s₄, made, parsed⟩ := bind_ok parsed
  obtain ⟨rfl, rfl⟩ := located_ok parsed
  exact .node rfl whole ⟨full, rfl⟩ (by simp [TypeDefinition.lexemes])
    ((description_row described).append (.cons (.of_mark (expectKeyword_ok worded) rfl)
      (name_spans named) (typeBody_row form made)))

theorem schemaExtension_spans :
    ReadsNode (schemaExtension levels) fun found => .definition (.schemaExtension found) := by
  intro s s' found parsed
  have whole := (schemaExtension_reads rfl parsed).1
  unfold schemaExtension at parsed
  rw [current_eq] at parsed
  obtain ⟨_, s₁, extended, parsed⟩ := bind_ok parsed
  obtain ⟨_, s₂, worded, parsed⟩ := bind_ok parsed
  obtain ⟨marks, s₃, marked, parsed⟩ := bind_ok parsed
  obtain ⟨types, s₄, listed, parsed⟩ := bind_ok parsed
  split at parsed
  · exact absurd parsed fail_ne_ok
  · obtain ⟨rfl, rfl⟩ := located_ok parsed
    have front : Reaches s s₂ := (Reaches.of_mark (expectKeyword_ok extended) rfl).trans
      (.of_mark (expectKeyword_ok worded) rfl)
    have row := (directives_row marked).append
      (optionalMany_row operationTypeDefinition_spans listed)
    exact .node rfl whole ⟨false, rfl⟩ (List.cons_ne_nil _ _) (row.led front)

theorem typeExtension_spans (form : TypeForm) :
    ReadsNode (typeExtension levels form) fun found => .definition (.typeExtension found) := by
  intro s s' found parsed
  obtain ⟨full, whole, _⟩ := typeExtension_reads rfl form parsed
  unfold typeExtension at parsed
  rw [current_eq] at parsed
  obtain ⟨_, s₁, extended, parsed⟩ := bind_ok parsed
  obtain ⟨_, s₂, worded, parsed⟩ := bind_ok parsed
  obtain ⟨key, s₃, named, parsed⟩ := bind_ok parsed
  obtain ⟨⟨marks, body⟩, s₄, made, parsed⟩ := bind_ok parsed
  dsimp only at parsed
  split at parsed
  · exact absurd parsed fail_ne_ok
  · obtain ⟨rfl, rfl⟩ := located_ok parsed
    have front : Reaches s s₂ := (Reaches.of_mark (expectKeyword_ok extended) rfl).trans
      (.of_mark (expectKeyword_ok worded) rfl)
    exact .node rfl whole ⟨full, rfl⟩ (List.cons_ne_nil _ _)
      (.cons front (name_spans named) (typeBody_row form made))

theorem directiveLocation_spans : ReadsNode directiveLocation .name := by
  intro s s' found parsed
  unfold directiveLocation at parsed
  rw [current_eq] at parsed
  obtain ⟨place, s₁, named, parsed⟩ := bind_ok parsed
  split at parsed
  · cases parsed
    exact name_spans named
  · exact absurd parsed fail_ne_ok

theorem directiveDefinition_spans :
    ReadsNode (directiveDefinition levels) fun found => .definition (.directive found) := by
  intro s s' found parsed
  obtain ⟨full, whole, _⟩ := directiveDefinition_reads rfl parsed
  unfold directiveDefinition at parsed
  rw [current_eq] at parsed
  obtain ⟨text, s₁, described, parsed⟩ := bind_ok parsed
  obtain ⟨_, s₂, worded, parsed⟩ := bind_ok parsed
  obtain ⟨_, s₃, signed, parsed⟩ := bind_ok parsed
  obtain ⟨key, s₄, named, parsed⟩ := bind_ok parsed
  obtain ⟨given, s₅, listed, parsed⟩ := bind_ok parsed
  obtain ⟨repeats, s₆, asked, parsed⟩ := bind_ok parsed
  obtain ⟨_, s₇, led, parsed⟩ := bind_ok parsed
  obtain ⟨places, s₈, located, parsed⟩ := bind_ok parsed
  obtain ⟨rfl, rfl⟩ := located_ok parsed
  have sign := (fixes_mark .atSign).expect_ok signed
  have front : Reaches s₁ s₃ := (Reaches.of_mark (expectKeyword_ok worded) rfl).trans
    (.of_mark sign rfl)
  have between : Reaches s₅ s₆ := by
    rcases acceptKeyword_ok asked with ⟨_, word⟩ | ⟨_, _, rfl⟩
    · exact .of_mark word rfl
    · exact .stay
  have behind := (delimited_row directiveLocation_spans located).led
    (between.trans (.of_mark (expectKeyword_ok led) rfl))
  have parts := (argumentDefinitions_row listed).append behind
  exact .node rfl whole ⟨full, rfl⟩ (by simp [DirectiveDefinition.lexemes])
    ((description_row described).append (.cons front (name_spans named) parts))

end

end GraphQL.Parser

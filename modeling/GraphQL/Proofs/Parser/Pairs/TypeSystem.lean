import GraphQL.Parser.TypeSystem
import GraphQL.Proofs.Parser.Pairs.Executable

/-!
Definitions of the type system and their extensions in two runs.
-/

namespace GraphQL.Parser.Pairing.Lawful

variable {pair : Pairing} (lawful : pair.Lawful)
include lawful

theorem isDescription_eq {a b : Token} (twins : pair.tokens a b) :
    isDescription a = isDescription b := by
  rw [isDescription, isDescription, lawful.kind_eq twins]

theorem description_maps :
    pair.Maps (Option.map (StringValue.relocate pair.relocate)) description description := by
  refine lawful.withCurrent fun {a b} twins => ?_
  refine .ite (by rw [lawful.isDescription_eq twins]) ?_ (agree_pure rfl)
  exact lawful.stringValue_maps.bind fun literal => agree_pure rfl

omit lawful in
theorem last_of_description {s s' : State} {found : Option StringValue}
    (parsed : description s = .ok found s') (again : isDescription s'.current = true) :
    isDescription s'.last = true := by
  unfold description at parsed
  rw [current_eq] at parsed
  split at parsed
  · rename_i described
    obtain ⟨literal, s₁, read, parsed⟩ := bind_ok parsed
    cases parsed
    rw [stringValue, current_eq] at read
    obtain ⟨_, s₂, moved, read⟩ := bind_ok read
    cases read
    rwa [(advance_keeps moved).2]
  · rename_i other
    cases parsed
    exact absurd again other

theorem operationTypeDefinition_maps :
    pair.Maps (OperationTypeDefinition.relocate pair.relocate) operationTypeDefinition
      operationTypeDefinition := by
  refine lawful.withCurrent fun {a b} twins => lawful.operationType_maps.bind fun operation => ?_
  refine (lawful.expect_maps _).bind fun _ => lawful.namedType_maps.bind fun type => ?_
  exact lawful.located twins fun loc => rfl

/-- A string is only taken for a name behind another one. -/
theorem enumValueName_outcome {s t : State} (alike : pair.states s t)
    (described : isDescription s.current = true → isDescription s.last = true) :
    pair.Outcome (fun a b => b = a.relocate pair.relocate) s (enumValueName s)
      (enumValueName t) := by
  have twins := lawful.current_twins alike
  have same := lawful.lexeme_eq twins
  have values : s.current.value? = t.current.value? := congrArg Lexeme.value? same
  unfold enumValueName
  rw [current_eq, current_eq, ← values, ← same]
  split
  · rename_i reserved
    refine lawful.outcome_fail alike twins rfl ⟨rfl, ?_, rfl, described⟩
    have text : s.current.lexeme.text = s.current.value?.getD "" := rfl
    rcases reserved with value | value | value <;> simp [text, value]
  · exact lawful.name_maps s t alike

theorem namedTypes_maps (mark : TokenKind) :
    pair.Maps (List.map (NamedType.relocate pair.relocate)) (delimited mark namedType)
      (delimited mark namedType) :=
  lawful.delimited_maps lawful.namedType_maps mark

theorem implementsInterfaces_maps :
    pair.Maps (List.map (NamedType.relocate pair.relocate)) implementsInterfaces
      implementsInterfaces := by
  refine (lawful.acceptKeyword_maps _).bind fun given => ?_
  exact .ite Iff.rfl (lawful.namedTypes_maps _) (agree_pure rfl)

theorem unionMembers_maps :
    pair.Maps (List.map (NamedType.relocate pair.relocate)) unionMembers unionMembers := by
  refine (lawful.accept_maps _).bind fun given => ?_
  exact .ite Iff.rfl (lawful.namedTypes_maps _) (agree_pure rfl)

theorem directiveLocation_maps :
    pair.Maps (Name.relocate pair.relocate) directiveLocation directiveLocation := by
  refine lawful.withCurrent fun {a b} twins => lawful.name_maps.bind fun name => ?_
  refine .ite Iff.rfl (agree_pure rfl) ?_
  exact lawful.agree_failOn twins (fun _ => rfl) fun _ => rfl

section
variable {n m : Nat} (levels : pair.levels n m)
include levels

theorem schemaDefinition_maps :
    pair.Maps (SchemaDefinition.relocate pair.relocate) (schemaDefinition n)
      (schemaDefinition m) := by
  refine lawful.withCurrent fun {a b} twins => lawful.description_maps.bind fun description => ?_
  refine (lawful.expectKeyword_maps _).bind fun _ => ?_
  refine (lawful.directives_maps true levels).bind fun directives => ?_
  refine (lawful.many_maps lawful.operationTypeDefinition_maps _ _).bind fun operationTypes => ?_
  exact lawful.located twins fun loc => rfl

theorem inputValueDefinition_maps :
    pair.Maps (InputValueDefinition.relocate pair.relocate) (inputValueDefinition n)
      (inputValueDefinition m) := by
  refine lawful.withCurrent fun {a b} twins => lawful.description_maps.bind fun description => ?_
  refine lawful.name_maps.bind fun name => (lawful.expect_maps _).bind fun _ => ?_
  refine (lawful.typeRef_maps levels).bind fun type => ?_
  refine (lawful.defaultValue_maps levels).bind fun defaultValue => ?_
  refine (lawful.directives_maps true levels).bind fun directives => ?_
  exact lawful.located twins fun loc => rfl

theorem argumentDefinitions_maps :
    pair.Maps (List.map (InputValueDefinition.relocate pair.relocate)) (argumentDefinitions n)
      (argumentDefinitions m) :=
  lawful.optionalMany_maps (lawful.inputValueDefinition_maps levels) _ _

theorem fieldDefinition_maps :
    pair.Maps (FieldDefinition.relocate pair.relocate) (fieldDefinition n) (fieldDefinition m) := by
  refine lawful.withCurrent fun {a b} twins => lawful.description_maps.bind fun description => ?_
  refine lawful.name_maps.bind fun name => ?_
  refine (lawful.argumentDefinitions_maps levels).bind fun arguments => ?_
  refine (lawful.expect_maps _).bind fun _ => (lawful.typeRef_maps levels).bind fun type => ?_
  refine (lawful.directives_maps true levels).bind fun directives => ?_
  exact lawful.located twins fun loc => rfl

theorem enumValueDefinition_maps :
    pair.Maps (EnumValueDefinition.relocate pair.relocate) (enumValueDefinition n)
      (enumValueDefinition m) := by
  refine lawful.withCurrent fun {a b} twins s t alike => ?_
  refine (lawful.description_maps s t alike).bind fun {found _ s₁ t₁} parsed same still => ?_
  subst same
  refine (lawful.enumValueName_outcome still (last_of_description parsed)).bind
    fun {name _ s₂ t₂} _ same onward => ?_
  subst same
  have rest : pair.Maps (EnumValueDefinition.relocate pair.relocate)
      (do
        let directives ← directives true n
        return ⟨found, name, directives, ← span a⟩)
      (do
        let directives ← directives true m
        return ⟨found.map (StringValue.relocate pair.relocate), name.relocate pair.relocate,
          directives, ← span b⟩) :=
    (lawful.directives_maps true levels).bind fun directives => lawful.located twins fun loc => rfl
  exact rest s₂ t₂ onward

theorem typeBody_maps (form : TypeForm) :
    pair.Maps (fun (found : List Directive × TypeBody) =>
        (found.1.map (Directive.relocate pair.relocate), found.2.relocate pair.relocate))
      (typeBody n form) (typeBody m form) := by
  have directives := lawful.directives_maps true levels
  have fields := lawful.optionalMany_maps (lawful.fieldDefinition_maps levels)
    (.punctuator .braceOpen) (.punctuator .braceClose)
  cases form with
  | scalar => exact directives.bind fun directives => agree_pure rfl
  | object | interface =>
      refine lawful.implementsInterfaces_maps.bind fun interfaces => ?_
      exact directives.bind fun directives => fields.bind fun fields => agree_pure rfl
  | union =>
      refine directives.bind fun directives => ?_
      exact lawful.unionMembers_maps.bind fun members => agree_pure rfl
  | enum =>
      refine directives.bind fun directives => ?_
      have values := lawful.optionalMany_maps (lawful.enumValueDefinition_maps levels)
        (.punctuator .braceOpen) (.punctuator .braceClose)
      exact values.bind fun values => agree_pure rfl
  | inputObject =>
      refine directives.bind fun directives => ?_
      have fields := lawful.optionalMany_maps (lawful.inputValueDefinition_maps levels)
        (.punctuator .braceOpen) (.punctuator .braceClose)
      exact fields.bind fun fields => agree_pure rfl

theorem typeDefinition_maps (form : TypeForm) :
    pair.Maps (TypeDefinition.relocate pair.relocate) (typeDefinition n form)
      (typeDefinition m form) := by
  refine lawful.withCurrent fun {a b} twins => lawful.description_maps.bind fun description => ?_
  refine (lawful.expectKeyword_maps _).bind fun _ => lawful.name_maps.bind fun name => ?_
  refine (lawful.typeBody_maps levels form).bind fun found => ?_
  exact lawful.located twins fun loc => rfl

theorem directiveDefinition_maps :
    pair.Maps (DirectiveDefinition.relocate pair.relocate) (directiveDefinition n)
      (directiveDefinition m) := by
  refine lawful.withCurrent fun {a b} twins => lawful.description_maps.bind fun description => ?_
  refine (lawful.expectKeyword_maps _).bind fun _ => (lawful.expect_maps _).bind fun _ => ?_
  refine lawful.name_maps.bind fun name => ?_
  refine (lawful.argumentDefinitions_maps levels).bind fun arguments => ?_
  refine (lawful.acceptKeyword_maps _).bind fun repeatable => ?_
  refine (lawful.expectKeyword_maps _).bind fun _ => ?_
  refine (lawful.delimited_maps lawful.directiveLocation_maps _).bind fun locations => ?_
  exact lawful.located twins fun loc => rfl

theorem schemaExtension_maps :
    pair.Maps (SchemaExtension.relocate pair.relocate) (schemaExtension n) (schemaExtension m) := by
  refine lawful.withCurrent fun {a b} twins => (lawful.expectKeyword_maps _).bind fun _ => ?_
  refine (lawful.expectKeyword_maps _).bind fun _ => ?_
  refine (lawful.directives_maps true levels).bind fun directives => ?_
  refine (lawful.optionalMany_maps lawful.operationTypeDefinition_maps _ _).bind
    fun operationTypes => ?_
  refine .ite (by rw [List.isEmpty_map, List.isEmpty_map]) lawful.agree_unexpected ?_
  exact lawful.located twins fun loc => rfl

theorem typeExtension_maps (form : TypeForm) :
    pair.Maps (TypeExtension.relocate pair.relocate) (typeExtension n form)
      (typeExtension m form) := by
  refine lawful.withCurrent fun {a b} twins => (lawful.expectKeyword_maps _).bind fun _ => ?_
  refine (lawful.expectKeyword_maps _).bind fun _ => lawful.name_maps.bind fun name => ?_
  refine (lawful.typeBody_maps levels form).bind fun found => ?_
  refine .ite ?_ lawful.agree_unexpected ?_
  · rw [List.isEmpty_map, TypeBody.isEmpty_relocate]
  · exact lawful.located twins fun loc => rfl

theorem extension_maps :
    pair.Maps (Definition.relocate pair.relocate) (extension n) (extension m) := by
  refine lawful.lookahead_agree.bind fun {a b} twins => ?_
  rw [← lawful.lexeme_eq twins]
  split
  · exact (lawful.schemaExtension_maps levels).bind fun extension => agree_pure rfl
  · split
    · exact (lawful.typeExtension_maps levels _).bind fun extension => agree_pure rfl
    · exact lawful.agree_fail twins rfl fun _ => rfl
  · exact lawful.agree_fail twins rfl fun _ => rfl

end

end GraphQL.Parser.Pairing.Lawful

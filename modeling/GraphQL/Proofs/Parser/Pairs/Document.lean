import GraphQL.Proofs.Parser.Pairs.TypeSystem

/-!
Definitions and whole texts in two runs.
-/

namespace GraphQL.Parser.Pairing

def Answers (pair : Pairing) (change : α → β) (first : Except SyntaxError α)
    (second : Except SyntaxError β) : Prop :=
  match first with
  | .ok a => second = .ok (change a)
  | .error e => pair.excused e ∨ ∃ f, second = .error f ∧ pair.errors e f

variable {pair : Pairing}

theorem Outcome.answers {change : α → β} {first : Parser α} {second : Parser β}
    {source source' : Source} {options options' : Options}
    (outcome : pair.Outcome (fun a b => b = change a) (.ofSource source options)
      (first (.ofSource source options)) (second (.ofSource source' options'))) :
    pair.Answers change (first.run source options) (second.run source' options') := by
  unfold run
  simp only [EStateM.run]
  cases one : first (.ofSource source options) with
  | ok a s =>
      cases other : second (.ofSource source' options') with
      | ok b t =>
          rw [one, other] at outcome
          exact congrArg Except.ok outcome.1
      | error f t =>
          rw [one, other] at outcome
          exact outcome.elim
  | error e s =>
      rw [one] at outcome
      obtain ⟨_, excused | ⟨f, t, other, same⟩⟩ := outcome
      · exact .inl excused
      · rw [other]
        exact .inr ⟨f, rfl, same⟩

theorem Maps.answers {change : α → β} {first : Parser α} {second : Parser β}
    (maps : pair.Maps change first second) {source source' : Source} {options options' : Options}
    (alike : pair.states (.ofSource source options) (.ofSource source' options')) :
    pair.Answers change (first.run source options) (second.run source' options') :=
  Outcome.answers (maps _ _ alike)

/-- Two runs at the marks in front of their texts. They may have to move past them first to come to
states that are counterparts. -/
structure Begins (pair : Pairing) (s t : State) : Prop where
  moves : pair.Outcome (fun a b => b = id a) s (expect .sof s) (expect .sof t)
  spans : pair.Maps pair.relocate (span s.current) (span t.current)

namespace Lawful

variable (lawful : pair.Lawful) {n m : Nat} (levels : pair.levels n m)
include lawful levels

theorem typeSystemDefinition_maps {keyword : String} {first : Parser Definition}
    (known : typeSystemDefinition? n keyword = some first) :
    ∃ second, typeSystemDefinition? m keyword = some second ∧
      pair.Maps (Definition.relocate pair.relocate) first second := by
  unfold typeSystemDefinition? at known ⊢
  split at known
  · cases known
    exact ⟨_, rfl, (lawful.schemaDefinition_maps levels).map fun schema => rfl⟩
  · cases known
    exact ⟨_, rfl, (lawful.directiveDefinition_maps levels).map fun directive => rfl⟩
  · obtain ⟨form, isForm, rfl⟩ := Option.map_eq_some_iff.mp known
    rw [isForm]
    exact ⟨_, rfl, (lawful.typeDefinition_maps levels form).map fun type => rfl⟩

omit lawful levels in
theorem typeSystemDefinition_none {keyword : String} {n : Nat} (m : Nat)
    (unknown : typeSystemDefinition? n keyword = none) :
    typeSystemDefinition? m keyword = none := by
  unfold typeSystemDefinition? at unknown ⊢
  split at unknown
  · cases unknown
  · cases unknown
  · rw [Option.map_eq_none_iff.mp unknown]
    rfl

variable (heads : pair.FragmentHeads)
include heads

theorem definitionAt_maps {start start' keyword keyword' : Token}
    (begun : pair.tokens start start') (told : pair.tokens keyword keyword') :
    pair.Maps (Definition.relocate pair.relocate)
      (definitionAt n (isDescription start) start keyword)
      (definitionAt m (isDescription start) start' keyword') := by
  unfold definitionAt
  rw [← lawful.lexeme_eq told]
  split
  · rename_i text _
    cases known : typeSystemDefinition? n text with
    | some first =>
        obtain ⟨second, also, maps⟩ := lawful.typeSystemDefinition_maps levels known
        rw [also]
        exact maps
    | none =>
        rw [typeSystemDefinition_none m known]
        dsimp only
        by_cases described : isDescription start = true
        · rw [if_pos described, if_pos described]
          exact lawful.agree_fail begun rfl fun _ => described
        rw [if_neg described, if_neg described]
        split
        · exact (lawful.operation_maps levels).bind fun operation => agree_pure rfl
        · exact (lawful.operation_maps levels).bind fun operation => agree_pure rfl
        · exact (lawful.operation_maps levels).bind fun operation => agree_pure rfl
        · exact (lawful.fragment_maps levels heads).bind fun fragment => agree_pure rfl
        · exact lawful.extension_maps levels
        · exact lawful.agree_fail told rfl fun _ => rfl
  · exact lawful.agree_fail told rfl fun _ => rfl

theorem definition_maps :
    pair.Maps (Definition.relocate pair.relocate) (definition n) (definition m) := by
  rw [definition_eq, definition_eq]
  refine lawful.withCurrent fun {a b} twins => ?_
  refine .ite (by rw [lawful.kind_eq twins]) ?_ ?_
  · exact (lawful.operation_maps levels).bind fun operation => agree_pure rfl
  · rw [← lawful.isDescription_eq twins]
    refine .ite Iff.rfl (lawful.lookahead_agree.bind fun told => ?_) ?_
    · exact lawful.definitionAt_maps levels heads twins told
    · exact lawful.definitionAt_maps levels heads twins twins

theorem document_outcome {s t : State} (begins : pair.Begins s t) :
    pair.Outcome (fun a b => b = Document.relocate pair.relocate a) s (document n s)
      (document m t) := by
  have listed : pair.Outcome (fun a b => b = a.map (Definition.relocate pair.relocate)) s
      (many .sof (definition n) .eof s) (many .sof (definition m) .eof t) := by
    refine begins.moves.bind fun {_ _ s₁ t₁} _ _ alike => ?_
    have behind := lawful.rounds_maps.bind fun rounds =>
      lawful.itemsUntil_maps (lawful.definition_maps levels heads) .eof rounds
    exact behind s₁ t₁ alike
  refine listed.bind fun {definitions _ s₁ t₁} _ same alike => ?_
  subst same
  have ending : pair.Agree (fun a b => b = Document.relocate pair.relocate a)
      (do return ⟨definitions, ← span s.current⟩)
      (do return ⟨definitions.map (Definition.relocate pair.relocate), ← span t.current⟩) :=
    begins.spans.bind fun loc => agree_pure rfl
  exact ending s₁ t₁ alike

omit levels heads in
theorem begins {s t : State} (alike : pair.states s t) : pair.Begins s t where
  moves := lawful.expect_maps .sof s t alike
  spans := lawful.span_maps (lawful.current_twins alike)

theorem document_maps : pair.Maps (Document.relocate pair.relocate) (document n) (document m) :=
  fun _ _ alike => lawful.document_outcome levels heads (lawful.begins alike)

end Lawful

/-- Two runs of the parser over sources answer the same in each of its ways in. -/
theorem Lawful.parse_answers_begun (lawful : pair.Lawful) (heads : pair.FragmentHeads)
    {source source' : Source} {options options' : Options}
    (levels : pair.levels options.maxNestingDepth options'.maxNestingDepth)
    (begins : pair.Begins (.ofSource source options) (.ofSource source' options')) :
    pair.Answers (Document.relocate pair.relocate) (Document.parse source options)
        (Document.parse source' options') ∧
      pair.Answers (Value.relocate pair.relocate) (Value.parse source options)
        (Value.parse source' options') ∧
      pair.Answers (Value.relocate pair.relocate) (Value.parseConst source options)
        (Value.parseConst source' options') ∧
      pair.Answers (TypeRef.relocate pair.relocate) (TypeRef.parse source options)
        (TypeRef.parse source' options') :=
  ⟨(lawful.document_outcome levels heads begins).answers,
    (lawful.whole_outcome (lawful.value_maps false levels) begins.moves).answers,
    (lawful.whole_outcome (lawful.value_maps true levels) begins.moves).answers,
    (lawful.whole_outcome (lawful.typeRef_maps levels) begins.moves).answers⟩

theorem Lawful.parse_answers (lawful : pair.Lawful) (heads : pair.FragmentHeads)
    {source source' : Source} {options options' : Options}
    (levels : pair.levels options.maxNestingDepth options'.maxNestingDepth)
    (alike : pair.states (.ofSource source options) (.ofSource source' options')) :
    pair.Answers (Document.relocate pair.relocate) (Document.parse source options)
        (Document.parse source' options') ∧
      pair.Answers (Value.relocate pair.relocate) (Value.parse source options)
        (Value.parse source' options') ∧
      pair.Answers (Value.relocate pair.relocate) (Value.parseConst source options)
        (Value.parseConst source' options') ∧
      pair.Answers (TypeRef.relocate pair.relocate) (TypeRef.parse source options)
        (TypeRef.parse source' options') :=
  lawful.parse_answers_begun heads levels (lawful.begins alike)

end GraphQL.Parser.Pairing

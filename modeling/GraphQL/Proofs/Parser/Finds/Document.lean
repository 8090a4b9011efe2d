import GraphQL.Proofs.Parser.Finds.TypeSystem
import GraphQL.Proofs.Parser.Reads.Document

/-!
Documents that lie ahead are found, as long as each definition can end in front of the next.
-/

namespace GraphQL

/-- What stands behind a definition: nothing that it could go on with. -/
structure Definition.EndsBefore (definition : Definition) (next : Lexeme) : Prop where
  ends : Parser.Ends next
  noInterfaces : next ≠ .name "implements"
  noBraces : definition.lacksBraces = true → next ≠ .punctuator .braceOpen

namespace Parser

/-- What a definition begins with: nothing that another one could go on with, braces apart. -/
structure OpensDefinition (next : Lexeme) : Prop where
  goesOn : next ≠ .eof
  ends : Ends next
  noInterfaces : next ≠ .name "implements"

theorem OpensDefinition.of_name {word : String} (other : word ≠ "implements") :
    OpensDefinition (.name word) :=
  ⟨by simp, rfl, by simpa using other⟩

theorem OpensDefinition.of_brace : OpensDefinition (.punctuator .braceOpen) :=
  ⟨by simp, rfl, by simp⟩

theorem OpensDefinition.of_literal (literal : StringValue) : OpensDefinition literal.lexeme := by
  unfold StringValue.lexeme
  split
  · exact ⟨by simp, rfl, by simp⟩
  · exact ⟨by simp, rfl, by simp⟩

theorem described_opens (text : Option StringValue) {word : String} (other : word ≠ "implements")
    (rest : List Lexeme) :
    ∃ first more, descriptionLexemes text ++ .name word :: rest = first :: more ∧
      OpensDefinition first ∧ first ≠ .punctuator .braceOpen := by
  cases text with
  | none => exact ⟨_, _, rfl, .of_name other, by simp⟩
  | some literal =>
      refine ⟨_, _, rfl, .of_literal literal, ?_⟩
      unfold StringValue.lexeme
      split <;> simp

theorem keyword_ne (form : TypeForm) : form.keyword ≠ "implements" := by
  cases form <;> simp [TypeForm.keyword]

theorem definition_opens {options : Options} {levels : Nat} {definition : Definition} (full : Bool)
    (isOk : definition.conforms options levels = true) :
    ∃ first more, definition.lexemes full = first :: more ∧ OpensDefinition first ∧
      (first = .punctuator .braceOpen ↔ (definition.isShorthand && !full) = true) := by
  have keyworded : ∀ {spelled : List Lexeme}, (definition.isShorthand && !full) = false →
      (∃ first more, spelled = first :: more ∧ OpensDefinition first ∧
        first ≠ .punctuator .braceOpen) →
      ∃ first more, spelled = first :: more ∧ OpensDefinition first ∧
        (first = .punctuator .braceOpen ↔ (definition.isShorthand && !full) = true) := by
    rintro spelled long ⟨first, more, same, opens, noBrace⟩
    exact ⟨first, more, same, opens, by simp [noBrace, long]⟩
  cases definition with
  | operation inner =>
      by_cases short : (inner.isShorthand && !full) = true
      · simp only [Definition.conforms, OperationDefinition.conforms, Bool.and_eq_true] at isOk
        obtain ⟨first, more, spelled, rfl⟩ := selectionSet_begins _ isOk.1.2
        refine ⟨_, more, ?_, .of_brace, by simpa [Definition.isShorthand] using short⟩
        rw [Definition.lexemes, OperationDefinition.lexemes, if_pos short]
        exact spelled
      · refine keyworded (by simpa [Definition.isShorthand] using short) ?_
        have other : inner.operation.keyword ≠ "implements" := by
          cases inner.operation <;> simp [OperationType.keyword]
        rw [Definition.lexemes, OperationDefinition.lexemes, if_neg short]
        exact ⟨_, _, rfl, .of_name other, by simp⟩
  | fragment inner => exact keyworded rfl ⟨_, _, rfl, .of_name (by simp), by simp⟩
  | schema inner => exact keyworded rfl (described_opens inner.description (by simp) _)
  | type inner =>
      exact keyworded rfl (described_opens inner.description (keyword_ne inner.body.form) _)
  | directive inner => exact keyworded rfl (described_opens inner.description (by simp) _)
  | schemaExtension inner => exact keyworded rfl ⟨_, _, rfl, .of_name (by simp), by simp⟩
  | typeExtension inner => exact keyworded rfl ⟨_, _, rfl, .of_name (by simp), by simp⟩

theorem fits_begins {options : Options} {levels : Nat} {definition : Definition}
    {used : List Lexeme} {next : Lexeme} (fits : definition.Fits options levels used next) :
    ∃ first rest, used = first :: rest ∧ OpensDefinition first := by
  obtain ⟨full, rfl⟩ := fits.spelled
  obtain ⟨first, rest, spelled, opens, _⟩ := definition_opens full fits.conforms
  exact ⟨first, rest, spelled, opens⟩

section
variable {options : Options} {levels : Nat} {definitions : List Definition}

theorem listed_endsBefore {used : List Lexeme}
    (listed : Listed (Definition.Fits options levels) .eof definitions used) :
    Listed (fun definition used next =>
      definition.Fits options levels used next ∧ definition.EndsBefore next) .eof definitions
      used := by
  induction listed with
  | last fit =>
      apply Listed.last
      exact ⟨fit, rfl, by simp, fun _ => by simp⟩
  | more fit rest ih =>
      refine .more ⟨fit, ?_⟩ ih
      obtain ⟨first, others, same, opens⟩ := rest.begins fits_begins
      rw [(List.cons.inj same).1] at fit ⊢
      exact ⟨opens.ends, opens.noInterfaces, fit.ends⟩

/-- Definitions that are kept apart fit without what may be left out. -/
theorem listed_of_keptApart (some' : definitions ≠ [])
    (allOk : definitions.all (·.conforms options levels) = true)
    (apart : keptApart definitions = true) :
    Listed (Definition.Fits options levels) .eof definitions
      (definitions.flatMap (Definition.lexemes false) ++ [.eof]) := by
  induction definitions with
  | nil => exact absurd rfl some'
  | cons first rest ih =>
      simp only [List.all_cons, Bool.and_eq_true] at allOk
      cases rest with
      | nil =>
          simp only [List.flatMap_cons, List.flatMap_nil, List.append_nil]
          exact .last ⟨⟨false, rfl⟩, allOk.1, fun _ => by simp⟩
      | cons second others =>
          rw [keptApart, Bool.and_eq_true] at apart
          have listed := ih (List.cons_ne_nil _ _) allOk.2 apart.2
          have secondOk := allOk.2
          simp only [List.all_cons, Bool.and_eq_true] at secondOk
          obtain ⟨head, more, spelled, _, short⟩ := definition_opens false secondOk.1
          have opens : (second :: others).flatMap (Definition.lexemes false) ++ [Lexeme.eof] =
              head :: (more ++ (others.flatMap (Definition.lexemes false) ++ [.eof])) := by
            simp [spelled]
          rw [List.flatMap_cons, List.append_assoc]
          rw [opens] at listed ⊢
          refine .more ⟨⟨false, rfl⟩, allOk.1, ?_⟩ listed
          intro lacks isBrace
          have clash := apart.1
          have isShort := short.mp isBrace
          rw [Bool.not_false, Bool.and_true] at isShort
          rw [lacks, isShort] at clash
          cases clash

end

section
variable {options : Options} (bare : options.noLocation = true) {levels : Nat} {s s' : State}

theorem definition_keyword {text : Option StringValue} {word : String} {rest : List Lexeme}
    (moves : Moves s (descriptionLexemes text ++ .name word :: rest) s') :
    ∃ keyword : Token, keyword.lexeme = .name word ∧
      definition levels s = definitionAt levels text.isSome s.current keyword s := by
  cases text with
  | none =>
      have ahead : s.current.lexeme = .name word := Moves.head moves
      have noBrace : s.current.kind ≠ .punctuator .braceOpen := by
        simp [Token.kind, ahead, Lexeme.kind]
      have noString : isDescription s.current = false := by
        simp [isDescription, Token.kind, ahead, Lexeme.kind]
      refine ⟨s.current, ahead, ?_⟩
      rw [definition_eq, current_eq, if_neg noBrace, noString]
      rfl
  | some literal =>
      have ahead : s.current.lexeme = literal.lexeme := Moves.head moves
      have kind := kind_lexeme literal
      rw [← ahead] at kind
      have noEnd : literal.lexeme ≠ .eof := by
        rw [← ahead]
        intro same
        rw [same] at kind
        simp [Lexeme.kind] at kind
      have noBrace : s.current.kind ≠ .punctuator .braceOpen := by
        rcases kind with same | same <;> simp [Token.kind, same]
      have isString : isDescription s.current = true := by
        rcases kind with same | same <;> simp [isDescription, Token.kind, same]
      obtain ⟨keyword, seen, behind⟩ := lookahead_eq noEnd moves
      refine ⟨keyword, behind, ?_⟩
      rw [definition_eq, current_eq, if_neg noBrace, isString]
      simp only [if_true]
      rw [bind_eq seen]
      rfl

theorem typeSystem_finds {text : Option StringValue} {word : String} {rest : List Lexeme}
    {parser : Parser Definition} {node : Definition}
    (known : typeSystemDefinition? levels word = some parser)
    (moves : Moves s (descriptionLexemes text ++ .name word :: rest) s')
    (found : parser s = .ok node s') : definition levels s = .ok node s' := by
  obtain ⟨keyword, same, reads⟩ := definition_keyword moves
  rw [reads, definitionAt]
  simp only [same, known]
  exact found

theorem map_eq {make : α → β} {part : Parser α} {inner : α} (found : part s = .ok inner s') :
    (make <$> part) s = .ok (make inner) s' := by
  simp only [Functor.map, EStateM.map, found]

theorem typeSystem_form (form : TypeForm) :
    typeSystemDefinition? levels form.keyword =
      some (Definition.type <$> typeDefinition levels form) := by
  cases form <;> rfl

theorem ofKeyword_keyword (form : TypeForm) : TypeForm.ofKeyword? form.keyword = some form := by
  cases form <;> rfl

theorem definitionAt_word {word : String} {start keyword : Token} {parser : Parser Definition}
    (same : keyword.lexeme = .name word)
    (known : (word = "query" ∨ word = "mutation" ∨ word = "subscription") ∧
        parser = (do return .operation (← operation levels)) ∨
      word = "fragment" ∧ parser = (do return .fragment (← fragment levels)) ∨
      word = "extend" ∧ parser = extension levels) :
    definitionAt levels false start keyword = parser := by
  unfold definitionAt
  rw [same]
  rcases known with ⟨rfl | rfl | rfl, rfl⟩ | ⟨rfl, rfl⟩ | ⟨rfl, rfl⟩ <;> rfl

theorem word_finds {word : String} {rest : List Lexeme} {parser : Parser Definition}
    {node : Definition}
    (known : (word = "query" ∨ word = "mutation" ∨ word = "subscription") ∧
        parser = (do return .operation (← operation levels)) ∨
      word = "fragment" ∧ parser = (do return .fragment (← fragment levels)) ∨
      word = "extend" ∧ parser = extension levels)
    (moves : Moves s (.name word :: rest) s') (found : parser s = .ok node s') :
    definition levels s = .ok node s' := by
  have plain : Moves s (descriptionLexemes none ++ .name word :: rest) s' := moves
  obtain ⟨keyword, same, reads⟩ := definition_keyword plain
  rw [reads, ← found]
  exact congrFun (definitionAt_word same known) s

include bare

theorem operation_isDefinition {node : OperationDefinition} (ready : s.Ready options levels)
    (isOk : node.conforms options levels = true) {full : Bool}
    (moves : Moves s (node.lexemes full) s') :
    definition levels s = .ok (.operation node) s' := by
  have read := operation_finds bare ready isOk moves trivial
  have found : (do return Definition.operation (← operation levels)) s =
      .ok (.operation node) s' := by
    rw [bind_eq read]
    rfl
  by_cases short : (node.isShorthand && !full) = true
  · have alone : Moves s node.selectionSet.lexemes s' := by
      rwa [OperationDefinition.lexemes, if_pos short] at moves
    simp only [OperationDefinition.conforms, Bool.and_eq_true] at isOk
    have opens : s.current.kind = .punctuator .braceOpen :=
      (fixes_mark .braceOpen _).mpr (selectionSet_begins.head isOk.1.2 alone)
    rw [definition_eq, current_eq, if_pos opens]
    exact found
  · rw [OperationDefinition.lexemes, if_neg short] at moves
    refine word_finds (.inl ⟨?_, rfl⟩) moves found
    cases node.operation <;> simp [OperationType.keyword]

theorem fragment_isDefinition {node : FragmentDefinition} (ready : s.Ready options levels)
    (isOk : node.conforms options levels = true)
    (moves : Moves s node.lexemes s') : definition levels s = .ok (.fragment node) s' := by
  have read := fragment_finds bare ready isOk moves trivial
  have found : (do return Definition.fragment (← fragment levels)) s =
      .ok (.fragment node) s' := by
    rw [bind_eq read]
    rfl
  exact word_finds (.inr (.inl ⟨rfl, rfl⟩)) moves found

theorem schemaExtension_isDefinition {node : SchemaExtension} (ready : s.Ready options levels)
    (isOk : node.conforms options levels = true)
    (moves : Moves s node.lexemes s')
    (follows : (Definition.schemaExtension node).EndsBefore s'.current.lexeme) :
    definition levels s = .ok (.schemaExtension node) s' := by
  have read := schemaExtension_finds bare ready isOk moves follows.ends follows.noBraces
  obtain ⟨keyword, seen, behind⟩ := lookahead_eq (by simp) moves
  have found : extension levels s = .ok (.schemaExtension node) s' := by
    unfold extension
    rw [bind_eq seen]
    simp only [behind]
    rw [bind_eq read]
    rfl
  exact word_finds (.inr (.inr ⟨rfl, rfl⟩)) moves found

theorem typeExtension_isDefinition {node : TypeExtension} (ready : s.Ready options levels)
    (isOk : node.conforms options levels = true) {full : Bool}
    (moves : Moves s (node.lexemes full) s')
    (follows : (Definition.typeExtension node).EndsBefore s'.current.lexeme) :
    definition levels s = .ok (.typeExtension node) s' := by
  have ends : EndsType node.body s'.current.lexeme :=
    ⟨follows.ends, follows.noInterfaces, follows.noBraces⟩
  have read := typeExtension_finds bare ready isOk moves ends
  obtain ⟨keyword, seen, behind⟩ := lookahead_eq (by simp) moves
  have found : extension levels s = .ok (.typeExtension node) s' := by
    have known := ofKeyword_keyword node.body.form
    have noSchema : node.body.form.keyword ≠ "schema" := by
      cases node.body.form <;> simp [TypeForm.keyword]
    unfold extension
    rw [bind_eq seen]
    simp only [behind, known]
    rw [bind_eq read]
    rfl
  exact word_finds (.inr (.inr ⟨rfl, rfl⟩)) moves found

theorem definition_finds {full : Bool} :
    Finds options levels (definition levels) (Definition.lexemes full) (·.conforms options levels)
      Definition.EndsBefore := by
  intro s s' node ready isOk moves follows
  cases node with
  | operation inner => exact operation_isDefinition bare ready isOk moves
  | fragment inner => exact fragment_isDefinition bare ready isOk moves
  | schema inner =>
      have found := schemaDefinition_finds bare ready isOk moves trivial
      exact typeSystem_finds rfl moves (map_eq found)
  | type inner =>
      have ends : EndsType inner.body s'.current.lexeme :=
        ⟨follows.ends, follows.noInterfaces, follows.noBraces⟩
      have found := typeDefinition_finds bare ready isOk moves ends
      exact typeSystem_finds (typeSystem_form inner.body.form) moves (map_eq found)
  | directive inner =>
      have found := directiveDefinition_finds bare ready isOk moves follows.ends
      exact typeSystem_finds rfl moves (map_eq found)
  | schemaExtension inner =>
      exact schemaExtension_isDefinition bare ready isOk moves follows
  | typeExtension inner => exact typeExtension_isDefinition bare ready isOk moves follows

/-- A document is found between the ends of its text where each definition fits what stands
behind it. -/
theorem document_of_listed {node : Document} {used : List Lexeme} (ready : s.Ready options levels)
    (listed : Listed (Definition.Fits options levels) .eof node.definitions used)
    (bareLoc : node.loc = none) (moves : Moves s (.sof :: used) s') :
    document levels s = .ok node s' := by
  obtain ⟨definitions, loc⟩ := node
  obtain rfl : loc = none := bareLoc
  obtain ⟨s₁, starts, onward⟩ := moves.uncons
  have ready₁ := starts.ready ready
  have items : itemsUntil .eof (definition levels) (s₁.upcoming.items.length + 2) s₁ =
      .ok definitions s' := by
    refine itemsUntil_of_listed fixes_eof ?_ ?_ (listed_endsBefore listed) ready₁ onward
      (remaining_lt_rounds s₁)
    · rintro s s' found used ready ⟨fits, follows⟩ moves
      obtain ⟨full, rfl⟩ := fits.spelled
      exact definition_finds bare ready fits.conforms moves follows
    · rintro found used next ⟨fits, _⟩
      obtain ⟨first, rest, same, opens⟩ := fits_begins fits
      exact ⟨first, rest, same, opens.goesOn, opens.goesOn⟩
  have found : many .sof (definition levels) .eof s = .ok definitions s' := by
    unfold many
    rw [bind_eq (fixes_sof.expect_eq starts), rounds_eq]
    exact items
  unfold document
  rw [current_eq, bind_eq found, bind_eq (span_none bare (moves.ready ready) _)]
  rfl

/-- A document whose definitions are kept apart is found between the ends of its text. -/
theorem document_finds {node : Document} (ready : s.Ready options levels)
    (some' : node.definitions ≠ [])
    (allOk : node.definitions.all (·.conforms options levels) = true) (bareLoc : node.loc = none)
    (apart : keptApart node.definitions = true)
    (moves : Moves s (.sof :: (node.lexemes ++ [.eof])) s') :
    document levels s = .ok node s' :=
  document_of_listed bare ready (listed_of_keptApart some' allOk apart) bareLoc moves

end

end Parser

end GraphQL

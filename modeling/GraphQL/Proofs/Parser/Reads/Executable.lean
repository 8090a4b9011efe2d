import GraphQL.Proofs.Parser.Parts
import GraphQL.Proofs.Parser.Reads.Value

/-!
What the productions of selections, operations and fragments read.
-/

namespace GraphQL.Parser

section
variable {options : Options}

theorem optionalPart_reads {part : Parser α} {spell : α → List Lexeme} {ok : α → Bool}
    (kind : TokenKind) (each : Reads options part spell ok) :
    Reads options (optionalPart kind part) (optionalLexemes spell) (·.all ok) := by
  intro s s' found here parsed
  unfold optionalPart at parsed
  rw [current_eq] at parsed
  split at parsed
  · obtain ⟨inner, s₁, read, parsed⟩ := bind_ok parsed
    cases parsed
    exact each here read
  · cases parsed
    exact ⟨.stay, rfl⟩

theorem fragmentName_reads :
    Reads options fragmentName Name.lexemes fun name =>
      name.conforms options && name.value != "on" := by
  intro s s' found here parsed
  unfold fragmentName at parsed
  rw [current_eq] at parsed
  split at parsed
  · exact absurd parsed fail_ne_ok
  · rename_i free
    obtain ⟨moves, isOk⟩ := name_reads here parsed
    refine ⟨moves, ?_⟩
    have other : found.value ≠ "on" := by
      intro same
      rw [Moves.head moves, same] at free
      exact free rfl
    simp [isOk, other]

theorem fieldKey_reads :
    Reads options fieldKey (fun key => aliasLexemes key.1 ++ key.2.lexemes) fun key =>
      key.1.all (·.conforms options) && key.2.conforms options := by
  intro s s' found here parsed
  unfold fieldKey at parsed
  obtain ⟨first, s₁, named, parsed⟩ := bind_ok parsed
  obtain ⟨moves, isOk⟩ := name_reads here named
  obtain ⟨taken, s₂, ahead, parsed⟩ := bind_ok parsed
  rcases (fixes_mark .colon).accept_ok ahead with ⟨rfl, colon⟩ | ⟨rfl, _, rfl⟩
  · obtain ⟨second, s₃, renamed, parsed⟩ := bind_ok parsed
    cases parsed
    obtain ⟨onward, secondOk⟩ := name_reads (colon.options.trans (moves.options.trans here)) renamed
    exact ⟨(moves.append colon).append onward, by simp [isOk, secondOk]⟩
  · cases parsed
    exact ⟨moves, by simp [isOk]⟩

section
variable {set : Parser SelectionSet} {levels : Nat}
  (inner : Reads options set SelectionSet.lexemes (·.conforms options levels))
include inner

theorem field_reads :
    Reads options (field set levels) Field.lexemes (·.conforms options levels) := by
  intro s s' found here parsed
  rw [field_eq, current_eq] at parsed
  obtain ⟨key, s₁, keyed, parsed⟩ := bind_ok parsed
  obtain ⟨given, s₂, listed, parsed⟩ := bind_ok parsed
  obtain ⟨marks, s₃, marked, parsed⟩ := bind_ok parsed
  obtain ⟨nested, s₄, opened, parsed⟩ := bind_ok parsed
  obtain ⟨loc, rfl, rfl, allowed⟩ := located_allowed parsed
  obtain ⟨first, keyOk⟩ := fieldKey_reads here keyed
  have here₁ := first.options.trans here
  obtain ⟨second, givenOk⟩ := arguments_reads here₁ listed
  have here₂ := second.options.trans here₁
  obtain ⟨third, marksOk⟩ := directives_reads here₂ marked
  have here₃ := third.options.trans here₂
  obtain ⟨last, nestedOk⟩ := optionalPart_reads _ inner here₃ opened
  have nestedOk : optionalSetConforms options levels nested = true := by
    rwa [optionalSetConforms_eq]
  rw [← optionalSetLexemes_eq] at last
  have whole := ((first.append second).append third).append last
  refine ⟨whole, ?_⟩
  simp only [Field.conforms, keyOk, givenOk, marksOk, nestedOk, allowsLoc_after whole here allowed,
    Bool.and_self]

theorem inlineBehind_reads {s s₁ s' : State} {condition : Option NamedType} {start : Token}
    {found : Selection} (here : s.options = options)
    (moves : Moves s (.punctuator .ellipsis :: conditionLexemes condition) s₁)
    (conditionOk : condition.all (·.conforms options) = true)
    (parsed : inlineBehind set levels start condition s₁ = .ok found s') :
    Moves s found.lexemes s' ∧ found.conforms options levels = true := by
  unfold inlineBehind at parsed
  obtain ⟨marks, s₂, marked, parsed⟩ := bind_ok parsed
  obtain ⟨nested, s₃, opened, parsed⟩ := bind_ok parsed
  obtain ⟨loc, rfl, rfl, allowed⟩ := located_allowed parsed
  have here₁ := moves.options.trans here
  obtain ⟨second, marksOk⟩ := directives_reads here₁ marked
  obtain ⟨last, nestedOk⟩ := inner (second.options.trans here₁) opened
  have whole := (moves.append second).append last
  refine ⟨by simpa [Selection.lexemes, InlineFragment.lexemes] using whole, ?_⟩
  simp only [Selection.conforms, InlineFragment.conforms, conditionOk, marksOk, nestedOk,
    allowsLoc_after whole here allowed, Bool.and_self]

omit inner in
theorem spreadBehind_reads {s s₁ s' : State} {start : Token} {found : Selection}
    (here : s.options = options) (dots : Moves s [.punctuator .ellipsis] s₁)
    (parsed : spreadBehind levels start s₁ = .ok found s') :
    Moves s found.lexemes s' ∧ found.conforms options levels = true := by
  unfold spreadBehind at parsed
  obtain ⟨key, s₂, named, parsed⟩ := bind_ok parsed
  obtain ⟨marks, s₃, marked, parsed⟩ := bind_ok parsed
  obtain ⟨loc, rfl, rfl, allowed⟩ := located_allowed parsed
  have here₁ := dots.options.trans here
  obtain ⟨first, keyOk⟩ := fragmentName_reads here₁ named
  obtain ⟨last, marksOk⟩ := directives_reads (first.options.trans here₁) marked
  have whole := dots.append (first.append last)
  refine ⟨whole, ?_⟩
  simp only [Bool.and_eq_true] at keyOk
  simp only [Selection.conforms, FragmentSpread.conforms, keyOk.1, keyOk.2, marksOk,
    allowsLoc_after whole here allowed, Bool.and_self]

theorem spreadOrInline_reads :
    Reads options (spreadOrInline set levels) Selection.lexemes (·.conforms options levels) := by
  intro s s' found here parsed
  rw [spreadOrInline_eq, current_eq] at parsed
  obtain ⟨_, s₁, opened, parsed⟩ := bind_ok parsed
  have dots := (fixes_mark .ellipsis).expect_ok opened
  obtain ⟨conditioned, s₂, ahead, parsed⟩ := bind_ok parsed
  rcases acceptKeyword_ok ahead with ⟨rfl, word⟩ | ⟨rfl, _, rfl⟩
  · obtain ⟨type, s₃, named, parsed⟩ := bind_ok parsed
    obtain ⟨moves, typeOk⟩ := namedType_reads ((dots.append word).options.trans here) named
    have led : Moves s (.punctuator .ellipsis :: conditionLexemes (some type)) s₃ :=
      dots.append (word.append moves)
    exact inlineBehind_reads inner here led typeOk parsed
  · simp only [Bool.false_eq_true, if_false] at parsed
    rw [current_eq] at parsed
    split at parsed
    · exact spreadBehind_reads here dots parsed
    · have led : Moves s (.punctuator .ellipsis :: conditionLexemes none) s₁ := dots
      exact inlineBehind_reads inner here led rfl parsed

theorem selection_reads :
    Reads options (selection set levels) Selection.lexemes (·.conforms options levels) := by
  intro s s' found here parsed
  unfold selection at parsed
  rw [current_eq] at parsed
  split at parsed
  · exact spreadOrInline_reads inner here parsed
  · obtain ⟨field, s₁, read, parsed⟩ := bind_ok parsed
    cases parsed
    exact field_reads inner here read

end

theorem selectionSetBody_reads {levels : Nat} {inner : Parser Selection}
    (each : Reads options inner Selection.lexemes (·.conforms options levels)) :
    Reads options (selectionSetBody inner) SelectionSet.lexemes
      (·.conforms options (levels + 1)) := by
  intro s s' found here parsed
  unfold selectionSetBody at parsed
  rw [current_eq] at parsed
  obtain ⟨selections, s₁, read, parsed⟩ := bind_ok parsed
  obtain ⟨loc, rfl, rfl, allowed⟩ := located_allowed parsed
  obtain ⟨moves, isOk⟩ := many_reads each here read
  simp only [Bool.and_eq_true, Bool.not_eq_true', List.isEmpty_eq_false_iff] at isOk
  rw [SelectionSet.lexemes, selectionsLexemes_eq,
    enclose_items (fun item _ => item.lexemes_ne_nil) isOk.1]
  refine ⟨moves, ?_⟩
  simp [SelectionSet.conforms, selectionsConform_eq, isOk.1, isOk.2,
    allowsLoc_after moves here allowed]

theorem selectionSet_reads (levels : Nat) :
    Reads options (selectionSet levels) SelectionSet.lexemes (·.conforms options levels) := by
  induction levels with
  | zero =>
      intro s s' found _ parsed
      exact absurd parsed fail_ne_ok
  | succ levels ih =>
      unfold selectionSet
      apply nested_reads
      exact selectionSetBody_reads (selection_reads ih)

section
variable {levels : Nat}

theorem variableDefinition_reads :
    Reads options (variableDefinition levels) VariableDefinition.lexemes
      (·.conforms options levels) := by
  intro s s' found here parsed
  unfold variableDefinition at parsed
  rw [current_eq] at parsed
  obtain ⟨declared, s₁, named, parsed⟩ := bind_ok parsed
  obtain ⟨_, s₂, behind, parsed⟩ := bind_ok parsed
  obtain ⟨type, s₃, typed, parsed⟩ := bind_ok parsed
  obtain ⟨value, s₄, given, parsed⟩ := bind_ok parsed
  obtain ⟨marks, s₅, marked, parsed⟩ := bind_ok parsed
  obtain ⟨loc, rfl, rfl, allowed⟩ := located_allowed parsed
  obtain ⟨first, declaredOk⟩ := variableRef_reads here named
  have colon := (fixes_mark .colon).expect_ok behind
  have here₂ := colon.options.trans (first.options.trans here)
  obtain ⟨second, typeOk⟩ := typeRef_reads levels here₂ typed
  have here₃ := second.options.trans here₂
  obtain ⟨third, valueOk⟩ := defaultValue_reads here₃ given
  obtain ⟨last, marksOk⟩ := directives_reads (third.options.trans here₃) marked
  have whole := first.append (colon.append ((second.append third).append last))
  refine ⟨whole, ?_⟩
  simp only [VariableDefinition.conforms, declaredOk, typeOk, valueOk, marksOk,
    allowsLoc_after whole here allowed, Bool.and_self]

theorem variableDefinitions_reads :
    Reads options (variableDefinitions levels) variableDefinitionsLexemes
      (fun found => found.all (·.conforms options levels)) :=
  optionalMany_reads variableDefinition_reads VariableDefinition.lexemes_ne_nil

theorem operationType_ofKeyword {text : String} {operation : OperationType}
    (found : OperationType.ofKeyword? text = some operation) : text = operation.keyword := by
  unfold OperationType.ofKeyword? at found
  split at found <;> cases found <;> rfl

theorem operationType_reads :
    Reads options operationType (fun operation => [.name operation.keyword]) fun _ => true := by
  intro s s' found here parsed
  unfold operationType at parsed
  rw [current_eq] at parsed
  obtain ⟨_, s₁, moved, parsed⟩ := bind_ok parsed
  obtain ⟨ahead, moved⟩ := expect_ok moved
  have moves := Moves.of_advance (lexeme_of_name ahead) moved
  cases known : OperationType.ofKeyword? s.current.text with
  | none =>
      simp only [known] at parsed
      exact absurd parsed fail_ne_ok
  | some operation =>
      simp only [known] at parsed
      cases parsed
      rw [operationType_ofKeyword known] at moves
      exact ⟨moves, rfl⟩

theorem operation_reads {s s' : State} {found : OperationDefinition} (here : s.options = options)
    (parsed : operation levels s = .ok found s') :
    ∃ full, Moves s (found.lexemes full) s' ∧ found.conforms options levels = true := by
  rw [operation_eq, current_eq] at parsed
  split at parsed
  · obtain ⟨set, s₁, opened, parsed⟩ := bind_ok parsed
    obtain ⟨loc, rfl, rfl, allowed⟩ := located_allowed parsed
    obtain ⟨moves, setOk⟩ := selectionSet_reads levels here opened
    refine ⟨false, moves, ?_⟩
    simp [OperationDefinition.conforms, directivesConform, setOk,
      allowsLoc_after moves here allowed]
  · obtain ⟨sort, s₁, worded, parsed⟩ := bind_ok parsed
    obtain ⟨key, s₂, named, parsed⟩ := bind_ok parsed
    obtain ⟨declared, s₃, listed, parsed⟩ := bind_ok parsed
    obtain ⟨marks, s₄, marked, parsed⟩ := bind_ok parsed
    obtain ⟨set, s₅, opened, parsed⟩ := bind_ok parsed
    obtain ⟨loc, rfl, rfl, allowed⟩ := located_allowed parsed
    obtain ⟨word, _⟩ := operationType_reads here worded
    have here₁ := word.options.trans here
    obtain ⟨first, keyOk⟩ := optionalPart_reads _ name_reads here₁ named
    have here₂ := first.options.trans here₁
    obtain ⟨second, variablesOk⟩ := variableDefinitions_reads here₂ listed
    have here₃ := second.options.trans here₂
    obtain ⟨third, marksOk⟩ := directives_reads here₃ marked
    obtain ⟨last, setOk⟩ := selectionSet_reads levels (third.options.trans here₃) opened
    have whole := word.append (((first.append second).append third).append last)
    refine ⟨true, ?_, ?_⟩
    · rw [OperationDefinition.lexemes, if_neg (by simp)]
      exact whole
    · simp only [OperationDefinition.conforms, keyOk, variablesOk, marksOk, setOk,
        allowsLoc_after whole here allowed, Bool.and_self]

theorem fragmentVariables_reads :
    Reads options (fragmentVariables levels) variableDefinitionsLexemes fun found =>
      (options.fragmentVariables || found.isEmpty) && found.all (·.conforms options levels) := by
  intro s s' found here parsed
  unfold fragmentVariables at parsed
  obtain ⟨allowed, s₁, asked, parsed⟩ := bind_ok parsed
  cases asked
  split at parsed
  · rename_i allowed
    obtain ⟨moves, isOk⟩ := variableDefinitions_reads here parsed
    rw [here] at allowed
    exact ⟨moves, by simp only [allowed, isOk, Bool.true_or, Bool.and_self]⟩
  · cases parsed
    exact ⟨.stay, by simp⟩

theorem fragment_reads :
    Reads options (fragment levels) FragmentDefinition.lexemes (·.conforms options levels) := by
  intro s s' found here parsed
  rw [fragment_eq, current_eq] at parsed
  obtain ⟨_, s₁, worded, parsed⟩ := bind_ok parsed
  obtain ⟨key, s₂, named, parsed⟩ := bind_ok parsed
  obtain ⟨declared, s₃, listed, parsed⟩ := bind_ok parsed
  obtain ⟨_, s₄, led, parsed⟩ := bind_ok parsed
  obtain ⟨condition, s₅, typed, parsed⟩ := bind_ok parsed
  obtain ⟨marks, s₆, marked, parsed⟩ := bind_ok parsed
  obtain ⟨set, s₇, opened, parsed⟩ := bind_ok parsed
  obtain ⟨loc, rfl, rfl, allowed⟩ := located_allowed parsed
  have word := expectKeyword_ok worded
  have here₁ := word.options.trans here
  obtain ⟨first, keyOk⟩ := fragmentName_reads here₁ named
  have here₂ := first.options.trans here₁
  obtain ⟨second, variablesOk⟩ := fragmentVariables_reads here₂ listed
  have on := expectKeyword_ok led
  have here₄ := on.options.trans (second.options.trans here₂)
  obtain ⟨third, conditionOk⟩ := namedType_reads here₄ typed
  have here₅ := third.options.trans here₄
  obtain ⟨fourth, marksOk⟩ := directives_reads here₅ marked
  obtain ⟨last, setOk⟩ := selectionSet_reads levels (fourth.options.trans here₅) opened
  have whole := word.append ((first.append second).append
    (on.append (third.append (fourth.append last))))
  refine ⟨by simpa [FragmentDefinition.lexemes] using whole, ?_⟩
  simp only [Bool.and_eq_true] at keyOk variablesOk
  simp only [FragmentDefinition.conforms, keyOk.1, keyOk.2, variablesOk.1, variablesOk.2,
    conditionOk, marksOk, setOk, allowsLoc_after whole here allowed, Bool.and_self]

end

end

end GraphQL.Parser

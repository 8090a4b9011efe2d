import GraphQL.Proofs.Parser.Reads.Executable
import GraphQL.Proofs.Parser.Spans.Value

/-!
Where selections, operations and fragments are read.
-/

namespace GraphQL.Parser

theorem optionalPart_row {part : Parser α} {node : α → Node} (kind : TokenKind)
    (each : ReadsNode part node) :
    ReadsRow (optionalPart kind part) fun found => (found.map node).toList := by
  intro s s' found parsed
  unfold optionalPart at parsed
  rw [current_eq] at parsed
  split at parsed
  · obtain ⟨inner, s₁, read, parsed⟩ := bind_ok parsed
    cases parsed
    exact .one (each read)
  · cases parsed
    exact .nil .stay

theorem fragmentName_spans : ReadsNode fragmentName .name := by
  intro s s' found parsed
  unfold fragmentName at parsed
  rw [current_eq] at parsed
  split at parsed
  · exact absurd parsed fail_ne_ok
  · exact name_spans parsed

theorem fieldKey_row :
    ReadsRow fieldKey fun key => (key.1.map Node.name).toList ++ [.name key.2] := by
  intro s s' found parsed
  unfold fieldKey at parsed
  obtain ⟨first, s₁, named, parsed⟩ := bind_ok parsed
  obtain ⟨taken, s₂, ahead, parsed⟩ := bind_ok parsed
  have key := name_spans named
  rcases (fixes_mark .colon).accept_ok ahead with ⟨rfl, colon⟩ | ⟨rfl, _, rfl⟩
  · obtain ⟨second, s₃, renamed, parsed⟩ := bind_ok parsed
    cases parsed
    exact .cons .stay key (.cons (.of_mark colon rfl) (name_spans renamed) (.nil .stay))
  · cases parsed
    exact .one key

section
variable {levels : Nat} (sets : ReadsNode (selectionSet levels) .selectionSet)
include sets

theorem field_spans :
    ReadsNode (field (selectionSet levels) levels) fun found => .selection (.field found) := by
  intro s s' found parsed
  have whole : Moves s (Selection.field found).lexemes s' :=
    (field_reads (selectionSet_reads levels) rfl parsed).1
  rw [field_eq, current_eq] at parsed
  obtain ⟨key, s₁, keyed, parsed⟩ := bind_ok parsed
  obtain ⟨given, s₂, listed, parsed⟩ := bind_ok parsed
  obtain ⟨marks, s₃, marked, parsed⟩ := bind_ok parsed
  obtain ⟨nested, s₄, opened, parsed⟩ := bind_ok parsed
  obtain ⟨rfl, rfl⟩ := located_ok parsed
  have parts := ((arguments_row listed).append (directives_row marked)).append
    (optionalPart_row _ sets opened)
  have row := (fieldKey_row keyed).append parts
  rw [List.append_assoc] at row
  exact .node rfl whole rfl (Selection.lexemes_ne_nil _) row

theorem inlineBehind_spans {s s₁ s' : State} {condition : Option NamedType} {found : Selection}
    (whole : Moves s found.lexemes s') (front : Row s (condition.map NamedType.node).toList s₁)
    (parsed : inlineBehind (selectionSet levels) levels s.current condition s₁ = .ok found s') :
    Spans s (.selection found) s' := by
  unfold inlineBehind at parsed
  obtain ⟨marks, s₂, marked, parsed⟩ := bind_ok parsed
  obtain ⟨nested, s₃, opened, parsed⟩ := bind_ok parsed
  obtain ⟨rfl, rfl⟩ := located_ok parsed
  exact .node rfl whole rfl (Selection.lexemes_ne_nil _)
    ((front.append (directives_row marked)).append (.one (sets opened)))

omit sets in
theorem spreadBehind_spans {s s₁ s' : State} {found : Selection}
    (whole : Moves s found.lexemes s') (dots : Reaches s s₁)
    (parsed : spreadBehind levels s.current s₁ = .ok found s') :
    Spans s (.selection found) s' := by
  unfold spreadBehind at parsed
  obtain ⟨key, s₂, named, parsed⟩ := bind_ok parsed
  obtain ⟨marks, s₃, marked, parsed⟩ := bind_ok parsed
  obtain ⟨rfl, rfl⟩ := located_ok parsed
  exact .node rfl whole rfl (Selection.lexemes_ne_nil _)
    (.cons dots (fragmentName_spans named) (directives_row marked))

theorem spreadOrInline_spans :
    ReadsNode (spreadOrInline (selectionSet levels) levels) .selection := by
  intro s s' found parsed
  have whole := (spreadOrInline_reads (selectionSet_reads levels) rfl parsed).1
  rw [spreadOrInline_eq, current_eq] at parsed
  obtain ⟨_, s₁, opened, parsed⟩ := bind_ok parsed
  have dots : Reaches s s₁ := .of_mark ((fixes_mark .ellipsis).expect_ok opened) rfl
  obtain ⟨conditioned, s₂, ahead, parsed⟩ := bind_ok parsed
  rcases acceptKeyword_ok ahead with ⟨rfl, word⟩ | ⟨rfl, _, rfl⟩
  · obtain ⟨type, s₃, named, parsed⟩ := bind_ok parsed
    have front : Row s ((some type).map NamedType.node).toList s₃ :=
      .cons (dots.trans (.of_mark word rfl)) (namedType_spans named) (.nil .stay)
    exact inlineBehind_spans sets whole front parsed
  · simp only [Bool.false_eq_true, if_false] at parsed
    rw [current_eq] at parsed
    split at parsed
    · exact spreadBehind_spans whole dots parsed
    · have front : Row s ((none : Option NamedType).map NamedType.node).toList s₁ := .nil dots
      exact inlineBehind_spans sets whole front parsed

theorem selection_spans : ReadsNode (selection (selectionSet levels) levels) .selection := by
  intro s s' found parsed
  unfold selection at parsed
  rw [current_eq] at parsed
  split at parsed
  · exact spreadOrInline_spans sets parsed
  · obtain ⟨field, s₁, read, parsed⟩ := bind_ok parsed
    cases parsed
    exact field_spans sets read

end

theorem selectionSetBody_spans {levels : Nat} {inner : Parser Selection}
    (each : ReadsNode inner .selection)
    (reads : ∀ {options : Options},
      Reads options inner Selection.lexemes (·.conforms options levels)) :
    ReadsNode (selectionSetBody inner) .selectionSet := by
  intro s s' found parsed
  obtain ⟨whole, isOk⟩ := selectionSetBody_reads reads rfl parsed
  unfold selectionSetBody at parsed
  rw [current_eq] at parsed
  obtain ⟨selections, s₁, read, parsed⟩ := bind_ok parsed
  obtain ⟨rfl, rfl⟩ := located_ok parsed
  exact .node rfl whole rfl (SelectionSet.lexemes_ne_nil isOk)
    (many_row (each) read)

theorem selectionSet_spans (levels : Nat) : ReadsNode (selectionSet levels) .selectionSet := by
  induction levels with
  | zero =>
      intro s s' found parsed
      exact absurd parsed fail_ne_ok
  | succ levels ih =>
      unfold selectionSet
      apply nested_spans
      exact selectionSetBody_spans (selection_spans ih)
        (selection_reads (selectionSet_reads levels))

section
variable {levels : Nat}

theorem variableDefinition_spans :
    ReadsNode (variableDefinition levels) .variableDefinition := by
  intro s s' found parsed
  have whole := (variableDefinition_reads rfl parsed).1
  unfold variableDefinition at parsed
  rw [current_eq] at parsed
  obtain ⟨declared, s₁, named, parsed⟩ := bind_ok parsed
  obtain ⟨_, s₂, behind, parsed⟩ := bind_ok parsed
  obtain ⟨type, s₃, typed, parsed⟩ := bind_ok parsed
  obtain ⟨value, s₄, given, parsed⟩ := bind_ok parsed
  obtain ⟨marks, s₅, marked, parsed⟩ := bind_ok parsed
  obtain ⟨rfl, rfl⟩ := located_ok parsed
  have colon := (fixes_mark .colon).expect_ok behind
  have parts := (defaultValue_row given).append (directives_row marked)
  exact .node rfl whole rfl (VariableDefinition.lexemes_ne_nil _)
    (.cons .stay (variableRef_spans named)
      (.cons (.of_mark colon rfl) (typeRef_spans levels typed) parts))

theorem variableDefinitions_row :
    ReadsRow (variableDefinitions levels) fun found => found.map .variableDefinition :=
  optionalMany_row variableDefinition_spans

theorem operation_spans :
    ReadsNode (operation levels) fun found => .definition (.operation found) := by
  intro s s' found parsed
  obtain ⟨full, whole, isOk⟩ := operation_reads rfl parsed
  rw [operation_eq, current_eq] at parsed
  split at parsed
  · obtain ⟨set, s₁, opened, parsed⟩ := bind_ok parsed
    obtain ⟨rfl, rfl⟩ := located_ok parsed
    exact .node rfl whole ⟨full, rfl⟩ (OperationDefinition.lexemes_ne_nil full isOk)
      (.one (selectionSet_spans levels opened))
  · obtain ⟨sort, s₁, worded, parsed⟩ := bind_ok parsed
    obtain ⟨key, s₂, named, parsed⟩ := bind_ok parsed
    obtain ⟨declared, s₃, listed, parsed⟩ := bind_ok parsed
    obtain ⟨marks, s₄, marked, parsed⟩ := bind_ok parsed
    obtain ⟨set, s₅, opened, parsed⟩ := bind_ok parsed
    obtain ⟨rfl, rfl⟩ := located_ok parsed
    have word := (operationType_reads rfl worded).1
    have front := (optionalPart_row _ name_spans named).led (.of_mark word rfl)
    exact .node rfl whole ⟨full, rfl⟩ (OperationDefinition.lexemes_ne_nil full isOk)
      (((front.append (variableDefinitions_row listed)).append (directives_row marked)).append
        (.one (selectionSet_spans levels opened)))

theorem fragmentVariables_row :
    ReadsRow (fragmentVariables levels) fun found => found.map .variableDefinition := by
  intro s s' found parsed
  unfold fragmentVariables at parsed
  obtain ⟨allowed, s₁, asked, parsed⟩ := bind_ok parsed
  cases asked
  split at parsed
  · exact variableDefinitions_row parsed
  · cases parsed
    exact .nil .stay

theorem fragment_spans :
    ReadsNode (fragment levels) fun found => .definition (.fragment found) := by
  intro s s' found parsed
  have whole := (fragment_reads rfl parsed).1
  rw [fragment_eq, current_eq] at parsed
  obtain ⟨_, s₁, worded, parsed⟩ := bind_ok parsed
  obtain ⟨key, s₂, named, parsed⟩ := bind_ok parsed
  obtain ⟨declared, s₃, listed, parsed⟩ := bind_ok parsed
  obtain ⟨_, s₄, led, parsed⟩ := bind_ok parsed
  obtain ⟨condition, s₅, typed, parsed⟩ := bind_ok parsed
  obtain ⟨marks, s₆, marked, parsed⟩ := bind_ok parsed
  obtain ⟨set, s₇, opened, parsed⟩ := bind_ok parsed
  obtain ⟨rfl, rfl⟩ := located_ok parsed
  have behind : Row s₄ (condition.node :: (marks.map .directive ++ [.selectionSet set])) s' :=
    .cons .stay (namedType_spans typed)
      ((directives_row marked).append (.one (selectionSet_spans levels opened)))
  have parts := (fragmentVariables_row listed).append
    (behind.led (.of_mark (expectKeyword_ok led) rfl))
  exact .node rfl whole ⟨false, rfl⟩ (List.cons_ne_nil _ _)
    (.cons (.of_mark (expectKeyword_ok worded) rfl) (fragmentName_spans named) parts)

end

end GraphQL.Parser

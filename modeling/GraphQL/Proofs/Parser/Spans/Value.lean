import GraphQL.Proofs.Parser.Reads.Value
import GraphQL.Proofs.Parser.Spans.Basic

/-!
Where names, values, directives and type references are read.
-/

namespace GraphQL.Parser

theorem name_spans : ReadsNode name .name := by
  intro s s' found parsed
  have whole := (name_reads rfl parsed).1
  unfold name at parsed
  rw [current_eq] at parsed
  obtain ⟨_, s₁, moved, parsed⟩ := bind_ok parsed
  obtain ⟨rfl, rfl⟩ := located_ok parsed
  exact .node rfl whole rfl (List.cons_ne_nil _ _) (.nil ⟨_, whole, rfl⟩)

theorem variableRef_spans : ReadsNode variableRef fun reference => .value (.var reference) := by
  intro s s' found parsed
  have whole := (variableRef_reads rfl parsed).1
  unfold variableRef at parsed
  rw [current_eq] at parsed
  obtain ⟨_, s₁, opened, parsed⟩ := bind_ok parsed
  obtain ⟨inner, s₂, named, parsed⟩ := bind_ok parsed
  obtain ⟨rfl, rfl⟩ := located_ok parsed
  have sign := (fixes_mark .dollar).expect_ok opened
  exact .node rfl whole rfl (List.cons_ne_nil _ _)
    ((Row.one (name_spans named)).led (.of_mark sign rfl))

theorem stringValue_spans {s s' : State} {found : StringValue}
    (isString : s.current.kind = .string ∨ s.current.kind = .blockString)
    (parsed : stringValue s = .ok found s') : Spans s (.value (.string found)) s' := by
  have whole := (stringValue_reads rfl isString parsed).1
  unfold stringValue at parsed
  rw [current_eq] at parsed
  obtain ⟨_, s₁, moved, parsed⟩ := bind_ok parsed
  obtain ⟨rfl, rfl⟩ := located_ok parsed
  exact .node rfl whole rfl (List.cons_ne_nil _ _)
    (.nil (.of_mark whole (StringValue.spelled _)))

section
variable {s s' : State}

theorem keyed_row {make : Name → Value → Option Location → α} {value : Parser Value}
    (each : ReadsNode value .value) {found : α}
    (parsed : (do
      let start ← current
      let name ← name
      expect (.punctuator .colon)
      return make name (← value) (← span start)) s = .ok found s') :
    ∃ key inner, found = make key inner (spanned s s') ∧ Row s [.name key, .value inner] s' := by
  rw [current_eq] at parsed
  obtain ⟨key, s₁, named, parsed⟩ := bind_ok parsed
  obtain ⟨_, s₂, behind, parsed⟩ := bind_ok parsed
  obtain ⟨inner, s₃, valued, parsed⟩ := bind_ok parsed
  obtain ⟨rfl, rfl⟩ := located_ok parsed
  have colon := (fixes_mark .colon).expect_ok behind
  exact ⟨key, inner, rfl,
    .cons .stay (name_spans named) (.cons (.of_mark colon rfl) (each valued) (.nil .stay))⟩

theorem leaf_located {make : Option Location → α} {found : α}
    (parsed : (do
      advance
      return make (← span s.current)) s = .ok found s') : found = make (spanned s s') := by
  obtain ⟨_, s₁, moved, parsed⟩ := bind_ok parsed
  obtain ⟨rfl, rfl⟩ := located_ok parsed
  rfl

theorem group_row {make : List β → Option Location → α} {item : Parser β} {node : β → Node}
    (each : ReadsNode item node) {opening closing : Punctuator} {found : α}
    (parsed : (do
      let items ← any (.punctuator opening) item (.punctuator closing)
      return make items (← span s.current)) s = .ok found s') :
    ∃ items, found = make items (spanned s s') ∧ Row s (items.map node) s' := by
  obtain ⟨items, s₁, read, parsed⟩ := bind_ok parsed
  obtain ⟨rfl, rfl⟩ := located_ok parsed
  exact ⟨items, rfl, any_row each read⟩

end

theorem namedValue_loc (text : String) (loc : Option Location) :
    (namedValue text loc).loc = loc := by
  unfold namedValue
  split <;> rfl

theorem namedValue_children (text : String) (loc : Option Location) :
    (namedValue text loc).children = [] := by
  unfold namedValue
  split <;> rfl

theorem valueBody_spans (isConst : Bool) {levels : Nat} {inner : Parser Value}
    (each : ReadsNode inner .value)
    (reads : ∀ {options : Options},
      Reads options inner Value.lexemes (·.conforms options isConst levels)) :
    ReadsNode (valueBody isConst inner) .value := by
  intro s s' found parsed
  have whole := (valueBody_reads isConst reads rfl parsed).1
  have onward : Reaches s s' := ⟨_, whole, found.spelled⟩
  unfold valueBody at parsed
  rw [current_eq] at parsed
  cases ahead : s.current.lexeme with
  | int text | float text =>
      simp only [ahead] at parsed
      obtain rfl := leaf_located parsed
      exact .node rfl whole rfl (Value.lexemes_ne_nil _) (.nil onward)
  | name text =>
      simp only [ahead] at parsed
      obtain rfl := leaf_located parsed
      refine .node (namedValue_loc text _) whole rfl (Value.lexemes_ne_nil _) ?_
      rw [Node.children, namedValue_children]
      exact .nil onward
  | string text =>
      simp only [ahead] at parsed
      obtain ⟨literal, s₁, read, parsed⟩ := bind_ok parsed
      cases parsed
      exact stringValue_spans (.inl (by simp [Token.kind, ahead, Lexeme.kind])) read
  | blockString text =>
      simp only [ahead] at parsed
      obtain ⟨literal, s₁, read, parsed⟩ := bind_ok parsed
      cases parsed
      exact stringValue_spans (.inr (by simp [Token.kind, ahead, Lexeme.kind])) read
  | punctuator mark =>
      cases mark with
      | bracketOpen =>
          simp only [ahead] at parsed
          obtain ⟨items, rfl, row⟩ := group_row each parsed
          exact .node rfl whole rfl (Value.lexemes_ne_nil _) row
      | braceOpen =>
          simp only [ahead] at parsed
          have field_spans : ReadsNode (objectField inner) .objectField := by
            intro s s' found parsed
            have whole := (objectField_reads reads rfl parsed).1
            obtain ⟨key, held, rfl, row⟩ := keyed_row each parsed
            exact .node rfl whole rfl (List.cons_ne_nil _ _) row
          obtain ⟨fields, rfl, row⟩ := group_row field_spans parsed
          exact .node rfl whole rfl (Value.lexemes_ne_nil _) row
      | dollar =>
          simp only [ahead] at parsed
          split at parsed
          · exact absurd parsed refuseVariable_ne_ok
          · obtain ⟨reference, s₁, read, parsed⟩ := bind_ok parsed
            cases parsed
            exact variableRef_spans read
      | _ =>
          simp only [ahead] at parsed
          exact absurd parsed fail_ne_ok
  | sof | eof | comment text =>
      simp only [ahead] at parsed
      exact absurd parsed fail_ne_ok

theorem value_spans (isConst : Bool) (levels : Nat) : ReadsNode (value isConst levels) .value := by
  induction levels with
  | zero =>
      intro s s' found parsed
      exact absurd parsed fail_ne_ok
  | succ levels ih =>
      unfold value
      apply nested_spans
      exact valueBody_spans isConst ih (value_reads isConst levels)

section
variable {isConst : Bool} {levels : Nat}

theorem argument_spans : ReadsNode (argument isConst levels) .argument := by
  intro s s' found parsed
  have whole := (argument_reads rfl parsed).1
  obtain ⟨key, inner, rfl, row⟩ := keyed_row (value_spans isConst levels) parsed
  exact .node rfl whole rfl (Argument.lexemes_ne_nil _) row

theorem arguments_row : ReadsRow (arguments isConst levels) fun found => found.map .argument :=
  optionalMany_row argument_spans

theorem directive_spans : ReadsNode (directive isConst levels) .directive := by
  intro s s' found parsed
  have whole := (directive_reads rfl parsed).1
  unfold directive at parsed
  rw [current_eq] at parsed
  obtain ⟨_, s₁, opened, parsed⟩ := bind_ok parsed
  obtain ⟨key, s₂, named, parsed⟩ := bind_ok parsed
  obtain ⟨given, s₃, listed, parsed⟩ := bind_ok parsed
  obtain ⟨rfl, rfl⟩ := located_ok parsed
  have sign := (fixes_mark .atSign).expect_ok opened
  exact .node rfl whole rfl (Directive.lexemes_ne_nil _)
    (.cons (.of_mark sign rfl) (name_spans named) (arguments_row listed))

theorem directives_row :
    ReadsRow (directives isConst levels) fun found => found.map .directive := by
  intro s s' found parsed
  unfold directives at parsed
  rw [rounds_eq] at parsed
  exact whileAt_row directive_spans parsed

end

theorem namedType_spans : ReadsNode namedType NamedType.node := by
  intro s s' found parsed
  have whole := (namedType_reads rfl parsed).1
  unfold namedType at parsed
  rw [current_eq] at parsed
  obtain ⟨key, s₁, named, parsed⟩ := bind_ok parsed
  obtain ⟨rfl, rfl⟩ := located_ok parsed
  exact .node rfl whole rfl (NamedType.lexemes_ne_nil _) (.one (name_spans named))

theorem typeRef_tail_spans {s s₁ s' : State} {type : NullableType} {found : TypeRef}
    (inner : Spans s (.type (.nullable type)) s₁)
    (parsed : (do
      if ← accept (.punctuator .bang) then return .nonNull type (← span s.current)
      else return .nullable type : Parser TypeRef) s₁ = .ok found s') :
    Spans s (.type found) s' := by
  obtain ⟨taken, s₂, ahead, parsed⟩ := bind_ok parsed
  rcases (fixes_mark .bang).accept_ok ahead with ⟨rfl, sign⟩ | ⟨rfl, _, rfl⟩
  · obtain ⟨rfl, rfl⟩ := located_ok parsed
    have row := (Row.one inner).closed (.of_mark sign rfl)
    cases inner with
    | node _ moves spelled _ _ =>
        obtain rfl := spelled
        exact .node rfl (moves.append sign) rfl (by simp) row
  · cases parsed
    exact inner

theorem typeRefBody_spans {levels : Nat} {inner : Parser TypeRef} (each : ReadsNode inner .type)
    (reads : ∀ {options : Options},
      Reads options inner TypeRef.lexemes (·.conforms options levels)) :
    ReadsNode (typeRefBody inner) .type := by
  intro s s' found parsed
  unfold typeRefBody at parsed
  rw [current_eq] at parsed
  dsimp only at parsed
  obtain ⟨taken, s₁, ahead, parsed⟩ := bind_ok parsed
  rcases (fixes_mark .bracketOpen).accept_ok ahead with ⟨rfl, opens⟩ | ⟨rfl, _, rfl⟩
  · obtain ⟨item, s₂, held, parsed⟩ := bind_ok parsed
    obtain ⟨_, s₃, closed, parsed⟩ := bind_ok parsed
    obtain ⟨loc, s₄, spanned, parsed⟩ := bind_ok parsed
    obtain ⟨rfl, rfl⟩ := span_spanned spanned
    have inside := (reads rfl held).1
    have closes := (fixes_mark .bracketClose).expect_ok closed
    have row := ((Row.one (each held)).closed (.of_mark closes rfl)).led (.of_mark opens rfl)
    have list : Spans s (.type (.nullable (.list item (Parser.spanned s s₃)))) s₃ :=
      .node rfl (opens.append (inside.append closes)) rfl (List.cons_ne_nil _ _) row
    exact typeRef_tail_spans list parsed
  · obtain ⟨type, s₂, named, parsed⟩ := bind_ok parsed
    exact typeRef_tail_spans (namedType_spans named) parsed

theorem typeRef_spans (levels : Nat) : ReadsNode (typeRef levels) .type := by
  induction levels with
  | zero =>
      intro s s' found parsed
      exact absurd parsed fail_ne_ok
  | succ levels ih =>
      unfold typeRef
      apply nested_spans
      exact typeRefBody_spans ih (typeRef_reads levels)

theorem defaultValue_row {levels : Nat} : ReadsRow (defaultValue levels) defaultNodes := by
  intro s s' found parsed
  unfold defaultValue at parsed
  obtain ⟨taken, s₁, opened, parsed⟩ := bind_ok parsed
  rcases (fixes_mark .equals).accept_ok opened with ⟨rfl, sign⟩ | ⟨rfl, _, rfl⟩
  · obtain ⟨inner, s₂, valued, parsed⟩ := bind_ok parsed
    cases parsed
    exact (Row.one (value_spans true levels valued)).led (.of_mark sign rfl)
  · cases parsed
    exact .nil .stay

end GraphQL.Parser

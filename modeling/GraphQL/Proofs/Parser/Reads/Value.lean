import GraphQL.Parser.Value
import GraphQL.Proofs.Parser.Reads.Loops

/-!
Names, values, directives and type references: each production reads the lexemes of the node
that it gives, and the node conforms.
-/

namespace GraphQL.Parser

section
variable {options : Options} {s s' : State}

theorem lexeme_of_name {token : Token} (isName : token.kind = .name) :
    token.lexeme = .name token.text := by
  unfold Token.kind at isName
  unfold Token.text
  cases lexeme : token.lexeme <;> rw [lexeme] at isName <;> cases isName
  rfl

theorem allowsLoc_after {loc : Option Location} {lexemes : List Lexeme}
    (moves : Moves s lexemes s') (here : s.options = options)
    (allowed : s'.options.allowsLoc loc = true) : options.allowsLoc loc = true := by
  rwa [moves.options, here] at allowed

theorem name_reads : Reads options name Name.lexemes (·.conforms options) := by
  intro s s' found here parsed
  unfold name at parsed
  rw [current_eq] at parsed
  obtain ⟨_, s₁, moved, parsed⟩ := bind_ok parsed
  obtain ⟨loc, rfl, rfl, allowed⟩ := located_allowed parsed
  obtain ⟨ahead, moved⟩ := expect_ok moved
  have moves := Moves.of_advance (lexeme_of_name ahead) moved
  exact ⟨moves, allowsLoc_after moves here allowed⟩

theorem variableRef_reads : Reads options variableRef Variable.lexemes (·.conforms options) := by
  intro s s' found here parsed
  unfold variableRef at parsed
  rw [current_eq] at parsed
  obtain ⟨_, s₁, opened, parsed⟩ := bind_ok parsed
  obtain ⟨inner, s₂, named, parsed⟩ := bind_ok parsed
  obtain ⟨loc, rfl, rfl, allowed⟩ := located_allowed parsed
  have sign := (fixes_mark .dollar).expect_ok opened
  obtain ⟨moves, isOk⟩ := name_reads (sign.options.trans here) named
  have whole := sign.append moves
  refine ⟨whole, ?_⟩
  simp only [Variable.conforms, isOk, allowsLoc_after whole here allowed, Bool.and_self]

/-- The caller of this production has seen that a string stands here. -/
theorem stringValue_reads {found : StringValue} (here : s.options = options)
    (isString : s.current.kind = .string ∨ s.current.kind = .blockString)
    (parsed : stringValue s = .ok found s') :
    Moves s [found.lexeme] s' ∧ found.conforms options = true := by
  unfold stringValue at parsed
  rw [current_eq] at parsed
  obtain ⟨_, s₁, moved, parsed⟩ := bind_ok parsed
  obtain ⟨loc, rfl, rfl, allowed⟩ := located_allowed parsed
  have ahead : s.current.lexeme = StringValue.lexeme
      ⟨s.current.text, s.current.kind = .blockString, loc⟩ := by
    unfold Token.kind at isString
    unfold Token.text Token.kind StringValue.lexeme
    cases lexeme : s.current.lexeme <;> rw [lexeme] at isString <;> simp [Lexeme.kind] at isString
    · rfl
    · rfl
  have moves := Moves.of_advance ahead moved
  exact ⟨moves, allowsLoc_after moves here allowed⟩

theorem refuseVariable_ne_ok {found : Value} : refuseVariable s ≠ .ok found s' := by
  intro parsed
  unfold refuseVariable at parsed
  rw [current_eq] at parsed
  obtain ⟨_, s₁, _, parsed⟩ := bind_ok parsed
  rw [current_eq] at parsed
  cases ahead : s₁.current.lexeme <;> simp only [ahead] at parsed <;> exact fail_ne_ok parsed

theorem namedValue_lexemes (text : String) (loc : Option Location) :
    (namedValue text loc).lexemes = [.name text] := by
  unfold namedValue
  split <;> rfl

theorem namedValue_conforms {text : String} {loc : Option Location} (isConst : Bool) (levels : Nat)
    (allowed : options.allowsLoc loc = true) :
    (namedValue text loc).conforms options isConst (levels + 1) = true := by
  unfold namedValue
  split <;> simp_all [Value.conforms, isReservedValue]

theorem keyed_reads {make : Name → Value → Option Location → α} {value : Parser Value}
    {ok : Value → Bool} (each : Reads options value Value.lexemes ok) {found : α}
    (here : s.options = options)
    (parsed : (do
      let start ← current
      let name ← name
      expect (.punctuator .colon)
      return make name (← value) (← span start)) s = .ok found s') :
    ∃ key inner loc, found = make key inner loc ∧
      Moves s (key.lexemes ++ .punctuator .colon :: inner.lexemes) s' ∧
      key.conforms options = true ∧ ok inner = true ∧ options.allowsLoc loc = true := by
  rw [current_eq] at parsed
  obtain ⟨key, s₁, named, parsed⟩ := bind_ok parsed
  obtain ⟨_, s₂, behind, parsed⟩ := bind_ok parsed
  obtain ⟨inner, s₃, valued, parsed⟩ := bind_ok parsed
  obtain ⟨loc, rfl, rfl, allowed⟩ := located_allowed parsed
  obtain ⟨first, keyOk⟩ := name_reads here named
  have colon := (fixes_mark .colon).expect_ok behind
  obtain ⟨last, innerOk⟩ := each (colon.options.trans (first.options.trans here)) valued
  have whole := first.append (colon.append last)
  exact ⟨key, inner, loc, rfl, whole, keyOk, innerOk, allowsLoc_after whole here allowed⟩

theorem objectField_reads {value : Parser Value} {isConst : Bool} {levels : Nat}
    (each : Reads options value Value.lexemes (·.conforms options isConst levels)) :
    Reads options (objectField value) ObjectField.lexemes (·.conforms options isConst levels) := by
  intro s s' found here parsed
  obtain ⟨key, inner, loc, rfl, moves, keyOk, innerOk, allowed⟩ := keyed_reads each here parsed
  refine ⟨moves, ?_⟩
  simp only [ObjectField.conforms, keyOk, innerOk, allowed, Bool.and_self]

theorem leaf_reads {make : Option Location → α} {found : α} {lexeme : Lexeme}
    (here : s.options = options) (ahead : s.current.lexeme = lexeme)
    (parsed : (do
      advance
      return make (← span s.current)) s = .ok found s') :
    ∃ loc, found = make loc ∧ options.allowsLoc loc = true ∧ Moves s [lexeme] s' := by
  obtain ⟨_, s₁, moved, parsed⟩ := bind_ok parsed
  obtain ⟨loc, rfl, rfl, allowed⟩ := located_allowed parsed
  have moves := Moves.of_advance ahead moved
  exact ⟨loc, rfl, allowsLoc_after moves here allowed, moves⟩

theorem group_reads {make : List β → Option Location → α} {item : Parser β}
    {spell : β → List Lexeme} {ok : β → Bool} (each : Reads options item spell ok)
    {opening closing : Punctuator} {start : Token} {found : α} (here : s.options = options)
    (parsed : (do
      let items ← any (.punctuator opening) item (.punctuator closing)
      return make items (← span start)) s = .ok found s') :
    ∃ items loc, found = make items loc ∧
      Moves s (.punctuator opening :: (items.flatMap spell ++ [.punctuator closing])) s' ∧
      items.all ok = true ∧ options.allowsLoc loc = true := by
  obtain ⟨items, s₁, read, parsed⟩ := bind_ok parsed
  obtain ⟨loc, rfl, rfl, allowed⟩ := located_allowed parsed
  obtain ⟨moves, allOk⟩ := any_reads each here read
  exact ⟨items, loc, rfl, moves, allOk, allowsLoc_after moves here allowed⟩

theorem valueBody_reads (isConst : Bool) {levels : Nat} {inner : Parser Value}
    (each : Reads options inner Value.lexemes (·.conforms options isConst levels)) :
    Reads options (valueBody isConst inner) Value.lexemes
      (·.conforms options isConst (levels + 1)) := by
  intro s s' found here parsed
  unfold valueBody at parsed
  rw [current_eq] at parsed
  cases ahead : s.current.lexeme with
  | int text | float text =>
      simp only [ahead] at parsed
      obtain ⟨loc, rfl, allowed, moves⟩ := leaf_reads here ahead parsed
      exact ⟨moves, allowed⟩
  | name text =>
      simp only [ahead] at parsed
      obtain ⟨loc, rfl, allowed, moves⟩ := leaf_reads here ahead parsed
      rw [namedValue_lexemes]
      exact ⟨moves, namedValue_conforms isConst levels allowed⟩
  | string text =>
      simp only [ahead] at parsed
      obtain ⟨literal, s₁, read, parsed⟩ := bind_ok parsed
      cases parsed
      exact stringValue_reads here (.inl (by simp [Token.kind, ahead, Lexeme.kind])) read
  | blockString text =>
      simp only [ahead] at parsed
      obtain ⟨literal, s₁, read, parsed⟩ := bind_ok parsed
      cases parsed
      exact stringValue_reads here (.inr (by simp [Token.kind, ahead, Lexeme.kind])) read
  | punctuator mark =>
      cases mark with
      | bracketOpen =>
          simp only [ahead] at parsed
          obtain ⟨items, loc, rfl, moves, allOk, allowed⟩ := group_reads each here parsed
          rw [Value.lexemes, itemsLexemes_eq]
          refine ⟨moves, ?_⟩
          simp only [Value.conforms, itemsConform_eq, allOk, allowed, Bool.and_self]
      | braceOpen =>
          simp only [ahead] at parsed
          obtain ⟨fields, loc, rfl, moves, allOk, allowed⟩ :=
            group_reads (objectField_reads each) here parsed
          rw [Value.lexemes, fieldsLexemes_eq]
          refine ⟨moves, ?_⟩
          simp only [Value.conforms, fieldsConform_eq, allOk, allowed, Bool.and_self]
      | dollar =>
          simp only [ahead] at parsed
          split at parsed
          · exact absurd parsed refuseVariable_ne_ok
          · rename_i free
            obtain ⟨reference, s₁, read, parsed⟩ := bind_ok parsed
            cases parsed
            obtain ⟨moves, isOk⟩ := variableRef_reads here read
            exact ⟨moves, by simp [Value.conforms, free, isOk]⟩
      | _ =>
          simp only [ahead] at parsed
          exact absurd parsed fail_ne_ok
  | sof | eof | comment text =>
      simp only [ahead] at parsed
      exact absurd parsed fail_ne_ok

theorem value_reads (isConst : Bool) (levels : Nat) :
    Reads options (value isConst levels) Value.lexemes (·.conforms options isConst levels) := by
  induction levels with
  | zero =>
      intro s s' found _ parsed
      exact absurd parsed fail_ne_ok
  | succ levels ih =>
      unfold value
      apply nested_reads
      exact valueBody_reads isConst ih

variable {isConst : Bool} {levels : Nat}

theorem argument_reads :
    Reads options (argument isConst levels) Argument.lexemes
      (·.conforms options isConst levels) := by
  intro s s' found here parsed
  obtain ⟨key, inner, loc, rfl, moves, keyOk, innerOk, allowed⟩ :=
    keyed_reads (value_reads isConst levels) here parsed
  refine ⟨moves, ?_⟩
  simp only [Argument.conforms, keyOk, innerOk, allowed, Bool.and_self]

theorem arguments_reads :
    Reads options (arguments isConst levels) argumentsLexemes
      (fun found => found.all (·.conforms options isConst levels)) :=
  optionalMany_reads argument_reads Argument.lexemes_ne_nil

theorem directive_reads :
    Reads options (directive isConst levels) Directive.lexemes
      (·.conforms options isConst levels) := by
  intro s s' found here parsed
  unfold directive at parsed
  rw [current_eq] at parsed
  obtain ⟨_, s₁, opened, parsed⟩ := bind_ok parsed
  obtain ⟨key, s₂, named, parsed⟩ := bind_ok parsed
  obtain ⟨given, s₃, listed, parsed⟩ := bind_ok parsed
  obtain ⟨loc, rfl, rfl, allowed⟩ := located_allowed parsed
  have sign := (fixes_mark .atSign).expect_ok opened
  obtain ⟨first, nameOk⟩ := name_reads (sign.options.trans here) named
  obtain ⟨last, argumentsOk⟩ :=
    arguments_reads (first.options.trans (sign.options.trans here)) listed
  have whole := sign.append (first.append last)
  refine ⟨whole, ?_⟩
  simp only [Directive.conforms, nameOk, argumentsOk, allowsLoc_after whole here allowed,
    Bool.and_self]

theorem directives_reads :
    Reads options (directives isConst levels) directivesLexemes
      (directivesConform options isConst levels) := by
  intro s s' found here parsed
  unfold directives at parsed
  rw [rounds_eq] at parsed
  exact whileAt_reads directive_reads here parsed

theorem namedType_reads : Reads options namedType NamedType.lexemes (·.conforms options) := by
  intro s s' found here parsed
  unfold namedType at parsed
  rw [current_eq] at parsed
  obtain ⟨key, s₁, named, parsed⟩ := bind_ok parsed
  obtain ⟨loc, rfl, rfl, allowed⟩ := located_allowed parsed
  obtain ⟨moves, nameOk⟩ := name_reads here named
  exact ⟨moves, by simp only [NamedType.conforms, nameOk, allowsLoc_after moves here allowed,
    Bool.and_self]⟩

theorem typeRef_tail {s₁ : State} {type : NullableType} {start : Token} {found : TypeRef}
    (here : s.options = options) (moves : Moves s type.lexemes s₁)
    (typeOk : type.conforms options levels = true)
    (parsed : (do
      if ← accept (.punctuator .bang) then return .nonNull type (← span start)
      else return .nullable type : Parser TypeRef) s₁ = .ok found s') :
    Moves s found.lexemes s' ∧ found.conforms options (levels + 1) = true := by
  obtain ⟨taken, s₂, ahead, parsed⟩ := bind_ok parsed
  rcases (fixes_mark .bang).accept_ok ahead with ⟨rfl, sign⟩ | ⟨rfl, _, rfl⟩
  · obtain ⟨loc, rfl, rfl, allowed⟩ := located_allowed parsed
    have whole := moves.append sign
    refine ⟨whole, ?_⟩
    simp only [TypeRef.conforms, typeOk, allowsLoc_after whole here allowed, Bool.and_self]
  · cases parsed
    exact ⟨moves, typeOk⟩

theorem typeRefBody_reads {inner : Parser TypeRef}
    (each : Reads options inner TypeRef.lexemes (·.conforms options levels)) :
    Reads options (typeRefBody inner) TypeRef.lexemes (·.conforms options (levels + 1)) := by
  intro s s' found here parsed
  unfold typeRefBody at parsed
  rw [current_eq] at parsed
  dsimp only at parsed
  obtain ⟨taken, s₁, ahead, parsed⟩ := bind_ok parsed
  rcases (fixes_mark .bracketOpen).accept_ok ahead with ⟨rfl, opens⟩ | ⟨rfl, _, rfl⟩
  · obtain ⟨item, s₂, inner, parsed⟩ := bind_ok parsed
    obtain ⟨_, s₃, closed, parsed⟩ := bind_ok parsed
    obtain ⟨loc, s₄, spanned, parsed⟩ := bind_ok parsed
    obtain ⟨rfl, allowed⟩ := span_ok spanned
    obtain ⟨inside, itemOk⟩ := each (opens.options.trans here) inner
    have closes := (fixes_mark .bracketClose).expect_ok closed
    have whole : Moves s (NullableType.list item loc).lexemes s₃ :=
      opens.append (inside.append closes)
    have listOk : (NullableType.list item loc).conforms options levels = true := by
      simp only [NullableType.conforms, itemOk, allowsLoc_after whole here allowed,
        Bool.and_self]
    exact typeRef_tail here whole listOk parsed
  · obtain ⟨type, s₂, named, parsed⟩ := bind_ok parsed
    obtain ⟨moves, typeOk⟩ := namedType_reads here named
    have whole : Moves s (NullableType.named type).lexemes s₂ := moves
    have namedOk : (NullableType.named type).conforms options levels = true := typeOk
    exact typeRef_tail here whole namedOk parsed

theorem typeRef_reads (levels : Nat) :
    Reads options (typeRef levels) TypeRef.lexemes (·.conforms options levels) := by
  induction levels with
  | zero =>
      intro s s' found _ parsed
      exact absurd parsed fail_ne_ok
  | succ levels ih =>
      unfold typeRef
      apply nested_reads
      exact typeRefBody_reads ih

theorem defaultValue_reads :
    Reads options (defaultValue levels) defaultLexemes
      (fun found => found.all (·.conforms options true levels)) := by
  intro s s' found here parsed
  unfold defaultValue at parsed
  obtain ⟨taken, s₁, opened, parsed⟩ := bind_ok parsed
  rcases (fixes_mark .equals).accept_ok opened with ⟨rfl, sign⟩ | ⟨rfl, _, rfl⟩
  · obtain ⟨inner, s₂, valued, parsed⟩ := bind_ok parsed
    cases parsed
    obtain ⟨moves, isOk⟩ := value_reads true levels (sign.options.trans here) valued
    exact ⟨sign.append moves, isOk⟩
  · cases parsed
    exact ⟨.stay, rfl⟩

end

end GraphQL.Parser

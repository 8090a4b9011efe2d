import GraphQL.Parser.Value
import GraphQL.Proofs.Parser.Finds.Loops

/-!
Names, values, directives and type references that lie ahead are found, where no locations are
kept.
-/

namespace GraphQL.Parser

section
variable {options : Options} (bare : options.noLocation = true) {levels : Nat} {s s' : State}
include bare

theorem loc_none {loc : Option Location} (allowed : options.allowsLoc loc = true) : loc = none := by
  simpa [Options.allowsLoc, bare] using allowed

theorem span_none (ready : s.Ready options levels) (start : Token) : span start s = .ok none s :=
  span_eq (by rwa [ready.noLocation]) start

theorem name_finds :
    Finds options levels name Name.lexemes (·.conforms options) fun _ _ => True := by
  intro s s' node ready isOk moves _
  obtain ⟨value, loc⟩ := node
  obtain rfl := loc_none bare isOk
  obtain ⟨ahead, moved⟩ := moves.one
  have kind : s.current.kind = .name := by
    rw [Token.kind, ahead]
    rfl
  have text : s.current.text = value := by
    rw [Token.text, ahead]
    rfl
  unfold name
  rw [current_eq, bind_eq ((expect_eq kind).trans moved),
    bind_eq (span_none bare (moves.ready ready) _), text]
  rfl

theorem variableRef_finds :
    Finds options levels variableRef Variable.lexemes (·.conforms options) fun _ _ => True := by
  intro s s' node ready isOk moves _
  obtain ⟨inner, loc⟩ := node
  simp only [Variable.conforms, Bool.and_eq_true] at isOk
  obtain rfl := loc_none bare isOk.2
  obtain ⟨s₁, sign, onward⟩ := Moves.uncons moves
  have named := name_finds bare (sign.ready ready) isOk.1 onward trivial
  unfold variableRef
  rw [current_eq, bind_eq ((fixes_mark .dollar).expect_eq sign), bind_eq named,
    bind_eq (span_none bare (Moves.ready moves ready) _)]
  rfl

theorem stringValue_finds {literal : StringValue} (ready : s.Ready options levels)
    (isOk : literal.conforms options = true) (moves : Moves s [literal.lexeme] s') :
    stringValue s = .ok literal s' := by
  obtain ⟨value, block, loc⟩ := literal
  obtain rfl := loc_none bare isOk
  obtain ⟨ahead, moved⟩ := moves.one
  have text : s.current.text = value := by
    rw [Token.text, ahead]
    cases block <;> rfl
  have isBlock : decide (s.current.kind = .blockString) = block := by
    rw [Token.kind, ahead]
    cases block <;> rfl
  unfold stringValue
  rw [current_eq, bind_eq moved, bind_eq (span_none bare (moves.ready ready) _), text, isBlock]
  rfl

theorem keyed_finds {make : Name → Value → Option Location → α} {value : Parser Value}
    {ok : Value → Bool} (each : Finds options levels value Value.lexemes ok fun _ _ => True)
    {key : Name} {inner : Value} (ready : s.Ready options levels)
    (keyOk : key.conforms options = true) (innerOk : ok inner = true)
    (moves : Moves s (key.lexemes ++ .punctuator .colon :: inner.lexemes) s') :
    (do
      let start ← current
      let name ← name
      expect (.punctuator .colon)
      return make name (← value) (← span start)) s = .ok (make key inner none) s' := by
  obtain ⟨s₁, first, onward⟩ := moves.split
  obtain ⟨s₂, colon, last⟩ := onward.uncons
  have ready₁ := first.ready ready
  have named := name_finds bare ready keyOk first trivial
  have valued := each (colon.ready ready₁) innerOk last trivial
  rw [current_eq, bind_eq named, bind_eq ((fixes_mark .colon).expect_eq colon), bind_eq valued,
    bind_eq (span_none bare (moves.ready ready) _)]
  rfl

theorem objectField_finds {value : Parser Value} {isConst : Bool} {levels : Nat}
    (each : Finds options levels value Value.lexemes (·.conforms options isConst levels)
      fun _ _ => True) :
    Finds options levels (objectField value) ObjectField.lexemes
      (·.conforms options isConst levels) fun _ _ => True := by
  intro s s' node ready isOk moves _
  obtain ⟨key, inner, loc⟩ := node
  simp only [ObjectField.conforms, Bool.and_eq_true] at isOk
  obtain ⟨⟨keyOk, innerOk⟩, locOk⟩ := isOk
  obtain rfl := loc_none bare locOk
  exact keyed_finds bare each ready keyOk innerOk moves

theorem leaf_finds {make : Option Location → α} {lexeme : Lexeme} (ready : s.Ready options levels)
    (moves : Moves s [lexeme] s') :
    (do
      advance
      return make (← span s.current)) s = .ok (make none) s' := by
  rw [bind_eq moves.one.2, bind_eq (span_none bare (moves.ready ready) _)]
  rfl

end

theorem namedValue_enum {text : String} (free : isReservedValue text = false) :
    namedValue text none = .enum text none := by
  unfold namedValue
  split <;> first | rfl | simp [isReservedValue] at free

def IsName (next : Lexeme) : Prop := ∃ text, next = .name text

theorem IsName.apart {next : Lexeme} (isName : IsName next) (closing : Punctuator) :
    (next ≠ .punctuator closing ∧ next ≠ .eof) ∧ True := by
  obtain ⟨text, rfl⟩ := isName
  simp

theorem value_begins {ok : Value → Bool} :
    Begins Value.lexemes ok fun next => next ≠ .punctuator .bracketClose ∧ next ≠ .eof := by
  intro item _
  cases item with
  | string literal =>
      refine ⟨_, _, rfl, ?_⟩
      unfold StringValue.lexeme
      split <;> simp
  | boolean isTrue loc => cases isTrue <;> exact ⟨_, _, rfl, by simp, by simp⟩
  | _ => exact ⟨_, _, rfl, by simp, by simp⟩

theorem objectField_begins {ok : ObjectField → Bool} :
    Begins ObjectField.lexemes ok IsName := by
  rintro ⟨key, inner, loc⟩ _
  exact ⟨_, _, rfl, key.value, rfl⟩

section
variable {options : Options} (bare : options.noLocation = true) {levels : Nat} {s s' : State}
include bare

theorem valueBody_finds (isConst : Bool) {inner : Parser Value}
    (each : Finds options levels inner Value.lexemes (·.conforms options isConst levels)
      fun _ _ => True) :
    Finds options levels (valueBody isConst inner) Value.lexemes
      (·.conforms options isConst (levels + 1)) fun _ _ => True := by
  intro s s' node ready isOk moves _
  unfold valueBody
  rw [current_eq]
  cases node with
  | var reference =>
      simp only [Value.conforms, Bool.and_eq_true, Bool.not_eq_true'] at isOk
      obtain ⟨free, referenceOk⟩ := isOk
      have found := variableRef_finds bare ready referenceOk moves trivial
      simp only [Moves.head moves, free, Bool.false_eq_true, if_false]
      rw [bind_eq found]
      rfl
  | int text loc | float text loc | null loc =>
      obtain rfl := loc_none bare isOk
      simp only [Moves.head moves]
      exact leaf_finds bare ready moves
  | string literal =>
      have found := stringValue_finds bare ready isOk moves
      have head := Moves.head moves
      unfold StringValue.lexeme at head
      split at head <;> simp only [head] <;> rw [bind_eq found] <;> rfl
  | boolean isTrue loc =>
      obtain rfl := loc_none bare isOk
      cases isTrue
      · simp only [Moves.head moves]
        exact leaf_finds bare ready moves
      · simp only [Moves.head moves]
        exact leaf_finds bare ready moves
  | enum text loc =>
      simp only [Value.conforms, Bool.and_eq_true, Bool.not_eq_true'] at isOk
      obtain rfl := loc_none bare isOk.2
      simp only [Moves.head moves]
      rw [← namedValue_enum isOk.1]
      exact leaf_finds bare ready moves
  | list items loc =>
      simp only [Value.conforms, itemsConform_eq, Bool.and_eq_true] at isOk
      obtain rfl := loc_none bare isOk.2
      simp only [Value.lexemes, itemsLexemes_eq] at moves
      have found := any_finds each value_begins (fun _ isSort => ⟨isSort, trivial⟩) trivial ready
        isOk.1 moves trivial
      simp only [Moves.head moves]
      rw [bind_eq found, bind_eq (span_none bare (moves.ready ready) _)]
      rfl
  | object fields loc =>
      simp only [Value.conforms, fieldsConform_eq, Bool.and_eq_true] at isOk
      obtain rfl := loc_none bare isOk.2
      simp only [Value.lexemes, fieldsLexemes_eq] at moves
      have found := any_finds (objectField_finds bare each) objectField_begins
        (fun _ isName => isName.apart .braceClose) trivial ready isOk.1 moves trivial
      simp only [Moves.head moves]
      rw [bind_eq found, bind_eq (span_none bare (moves.ready ready) _)]
      rfl

theorem value_finds (isConst : Bool) (levels : Nat) :
    Finds options levels (value isConst levels) Value.lexemes (·.conforms options isConst levels)
      fun _ _ => True := by
  induction levels with
  | zero =>
      intro s s' node _ isOk
      simp [Value.conforms] at isOk
  | succ levels ih =>
      unfold value
      apply nested_finds
      exact valueBody_finds bare isConst ih

end

def goesOn : Lexeme → Bool
  | .punctuator .parenOpen | .punctuator .atSign | .punctuator .bang | .punctuator .equals
  | .punctuator .colon | .punctuator .ampersand | .punctuator .pipe => true
  | _ => false

/-- Every node can end in front of a lexeme that no node goes on with. -/
def Ends (next : Lexeme) : Prop := goesOn next = false

theorem Ends.ne {next mark : Lexeme} (ends : Ends next) (onward : goesOn mark = true) :
    next ≠ mark := by
  rintro rfl
  rw [ends] at onward
  cases onward

theorem Ends.noDirective {next : Lexeme} (ends : Ends next) :
    next ≠ .punctuator .parenOpen ∧ next ≠ .punctuator .atSign :=
  ⟨ends.ne rfl, ends.ne rfl⟩

theorem Moves.ends_of_heads {s s' : State} {lexemes : List Lexeme} {mark : Lexeme}
    (moves : Moves s lexemes s') (heads : ∀ next ∈ lexemes.head?, next = mark)
    (apart : Ends mark) (behind : Ends s'.current.lexeme) : Ends s.current.lexeme := by
  rcases moves.at_mark heads with same | same
  · rwa [same]
  · rwa [same]

theorem head_enclose {opening closing : Punctuator} {inner : List Lexeme} :
    ∀ next ∈ (enclose opening inner closing).head?, next = .punctuator opening := by
  intro next member
  unfold enclose at member
  split at member
  · cases member
  · exact (Option.some.inj member).symm

theorem head_directives {directives : List Directive} :
    ∀ next ∈ (directivesLexemes directives).head?, next = .punctuator .atSign := by
  intro next member
  cases directives with
  | nil => cases member
  | cons first rest => exact (Option.some.inj member).symm

theorem argument_begins {ok : Argument → Bool} :
    Begins Argument.lexemes ok IsName := by
  intro item _
  exact ⟨_, _, rfl, item.name.value, rfl⟩

theorem directive_begins {ok : Directive → Bool} :
    Begins Directive.lexemes ok fun next => next = .punctuator .atSign := by
  intro item _
  exact ⟨_, _, rfl, rfl⟩

section
variable {options : Options} (bare : options.noLocation = true) {s s' : State} {isConst : Bool}
  {levels : Nat}
include bare

theorem argument_finds :
    Finds options levels (argument isConst levels) Argument.lexemes
      (·.conforms options isConst levels) fun _ _ => True := by
  intro s s' node ready isOk moves _
  obtain ⟨key, inner, loc⟩ := node
  simp only [Argument.conforms, Bool.and_eq_true] at isOk
  obtain ⟨⟨keyOk, innerOk⟩, locOk⟩ := isOk
  obtain rfl := loc_none bare locOk
  exact keyed_finds bare (value_finds bare isConst levels) ready keyOk innerOk moves

theorem arguments_finds :
    Finds options levels (arguments isConst levels) argumentsLexemes
      (fun found => found.all (·.conforms options isConst levels))
      fun _ next => next ≠ .punctuator .parenOpen := by
  intro s s' node ready isOk moves follows
  exact optionalMany_finds (argument_finds bare) argument_begins
    (fun _ isName => isName.apart .parenClose) trivial ready isOk moves fun _ => follows

theorem directive_finds :
    Finds options levels (directive isConst levels) Directive.lexemes
      (·.conforms options isConst levels) fun _ next => next ≠ .punctuator .parenOpen := by
  intro s s' node ready isOk moves follows
  obtain ⟨key, given, loc⟩ := node
  simp only [Directive.conforms, Bool.and_eq_true] at isOk
  obtain ⟨⟨keyOk, givenOk⟩, locOk⟩ := isOk
  obtain rfl := loc_none bare locOk
  obtain ⟨s₁, sign, onward⟩ := Moves.uncons moves
  obtain ⟨s₂, first, last⟩ := Moves.split onward
  have ready₁ := sign.ready ready
  have named := name_finds bare ready₁ keyOk first trivial
  have listed := arguments_finds bare (first.ready ready₁) givenOk last follows
  unfold directive
  rw [current_eq, bind_eq ((fixes_mark .atSign).expect_eq sign), bind_eq named, bind_eq listed,
    bind_eq (span_none bare (Moves.ready moves ready) _)]
  rfl

theorem directives_finds :
    Finds options levels (directives isConst levels) directivesLexemes
      (directivesConform options isConst levels)
      fun _ next => next ≠ .punctuator .parenOpen ∧ next ≠ .punctuator .atSign := by
  intro s s' node ready isOk moves follows
  unfold directives
  rw [rounds_eq]
  have apart : Lexeme.punctuator .atSign ≠ .punctuator .parenOpen := by simp
  exact whileAt_finds (@directive_finds _ bare _ _) directive_begins apart ready isOk moves
    follows.1 follows.2 (remaining_lt_rounds s)

theorem namedType_finds :
    Finds options levels namedType NamedType.lexemes (·.conforms options) fun _ _ => True := by
  intro s s' node ready isOk moves _
  obtain ⟨inner, loc⟩ := node
  simp only [NamedType.conforms, Bool.and_eq_true] at isOk
  obtain rfl := loc_none bare isOk.2
  have named := name_finds bare ready isOk.1 moves trivial
  unfold namedType
  rw [current_eq, bind_eq named, bind_eq (span_none bare (Moves.ready moves ready) _)]
  rfl

theorem bang_finds (type : NullableType) {isNonNull : Bool} (start : Token)
    (ready : s.Ready options levels)
    (moves : Moves s (if isNonNull then [.punctuator .bang] else []) s')
    (follows : s'.current.lexeme ≠ .punctuator .bang) :
    (do
      if ← accept (.punctuator .bang) then return .nonNull type (← span start)
      else return .nullable type : Parser TypeRef) s =
        .ok (if isNonNull then .nonNull type none else .nullable type) s' := by
  cases isNonNull with
  | false =>
      obtain rfl := Moves.nil_eq moves
      rw [bind_eq ((fixes_mark .bang).accept_false follows)]
      rfl
  | true =>
      have sign : Moves s [.punctuator .bang] s' := moves
      rw [bind_eq ((fixes_mark .bang).accept_true sign)]
      simp only [if_true]
      rw [bind_eq (span_none bare (sign.ready ready) _)]
      rfl

theorem typeRefBody_finds {inner : Parser TypeRef}
    (each : Finds options levels inner TypeRef.lexemes (·.conforms options levels)
      fun _ next => next ≠ .punctuator .bang) :
    Finds options levels (typeRefBody inner) TypeRef.lexemes (·.conforms options (levels + 1))
      fun _ next => next ≠ .punctuator .bang := by
  intro s s' node ready isOk moves follows
  obtain ⟨type, isNonNull, rfl⟩ : ∃ (type : NullableType) (isNonNull : Bool),
      node = if isNonNull then .nonNull type none else .nullable type := by
    cases node with
    | nullable type => exact ⟨type, false, rfl⟩
    | nonNull type loc =>
        simp only [TypeRef.conforms, Bool.and_eq_true] at isOk
        obtain rfl := loc_none bare isOk.2
        exact ⟨type, true, rfl⟩
  have typeOk : type.conforms options levels = true := by
    cases isNonNull <;> simp_all [TypeRef.conforms]
  have parts : Moves s (type.lexemes ++ if isNonNull then [.punctuator .bang] else []) s' := by
    cases isNonNull <;> simpa [TypeRef.lexemes] using moves
  obtain ⟨s₁, inner, behind⟩ := parts.split
  have bang (start : Token) :=
    bang_finds bare type start (inner.ready ready) behind follows
  unfold typeRefBody
  rw [current_eq]
  dsimp only
  cases type with
  | named type =>
      have named := namedType_finds bare ready typeOk inner trivial
      have ahead : s.current.lexeme ≠ .punctuator .bracketOpen := by
        rw [Moves.head inner]
        simp
      rw [bind_eq ((fixes_mark .bracketOpen).accept_false ahead)]
      simp only [Bool.false_eq_true, if_false]
      rw [bind_eq named]
      exact bang _
  | list item loc =>
      simp only [NullableType.conforms, Bool.and_eq_true] at typeOk
      obtain rfl := loc_none bare typeOk.2
      obtain ⟨s₂, opens, onward⟩ := Moves.uncons inner
      obtain ⟨s₃, inside, closes⟩ := onward.split
      have follows₃ : s₃.current.lexeme ≠ .punctuator .bang := by
        rw [closes.head]
        simp
      have found := each (opens.ready ready) typeOk.1 inside follows₃
      rw [bind_eq ((fixes_mark .bracketOpen).accept_true opens)]
      simp only [if_true]
      rw [bind_eq found, bind_eq ((fixes_mark .bracketClose).expect_eq closes),
        bind_eq (span_none bare (inner.ready ready) _)]
      exact bang _

theorem typeRef_finds (levels : Nat) :
    Finds options levels (typeRef levels) TypeRef.lexemes (·.conforms options levels)
      fun _ next => next ≠ .punctuator .bang := by
  induction levels with
  | zero =>
      intro s s' node _ isOk
      simp [TypeRef.conforms] at isOk
  | succ levels ih =>
      unfold typeRef
      apply nested_finds
      exact typeRefBody_finds bare ih

theorem defaultValue_finds :
    Finds options levels (defaultValue levels) defaultLexemes
      (fun found => found.all (·.conforms options true levels))
      fun _ next => next ≠ .punctuator .equals := by
  intro s s' node ready isOk moves follows
  unfold defaultValue
  cases node with
  | none =>
      obtain rfl := Moves.nil_eq moves
      rw [bind_eq ((fixes_mark .equals).accept_false follows)]
      rfl
  | some inner =>
      obtain ⟨s₁, sign, onward⟩ := Moves.uncons moves
      have found := value_finds bare true levels (sign.ready ready) isOk onward trivial
      rw [bind_eq ((fixes_mark .equals).accept_true sign)]
      simp only [if_true]
      rw [bind_eq found]
      rfl

end

end GraphQL.Parser

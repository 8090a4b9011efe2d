import GraphQL.Proofs.Parser.Parts
import GraphQL.Proofs.Parser.Finds.Value

/-!
Selections, operations and fragments that lie ahead are found.
-/

namespace GraphQL.Parser

theorem head_default {value : Option Value} :
    ∀ next ∈ (defaultLexemes value).head?, next = .punctuator .equals := by
  intro next member
  cases value with
  | none => cases member
  | some value => exact (Option.some.inj member).symm

theorem name_begins {ok : Name → Bool} :
    Begins Name.lexemes ok IsName := by
  intro item _
  exact ⟨_, _, rfl, item.value, rfl⟩

theorem selectionSet_begins {options : Options} {levels : Nat} :
    Begins SelectionSet.lexemes (·.conforms options levels)
      fun next => next = .punctuator .braceOpen := by
  intro item isOk
  rw [SelectionSet.lexemes_of_conforms isOk]
  exact ⟨_, _, rfl, rfl⟩

def OpensSelection (next : Lexeme) : Prop :=
  next = .punctuator .ellipsis ∨ IsName next

theorem selection_begins {ok : Selection → Bool} :
    Begins Selection.lexemes ok OpensSelection := by
  intro item _
  cases item with
  | field field =>
      obtain ⟨responseAlias, name, arguments, directives, set, loc⟩ := field
      cases responseAlias with
      | none => exact ⟨_, _, rfl, .inr ⟨name.value, rfl⟩⟩
      | some key => exact ⟨_, _, rfl, .inr ⟨key.value, rfl⟩⟩
  | spread spread => exact ⟨_, _, rfl, .inl rfl⟩
  | inline fragment =>
      obtain ⟨typeCondition, directives, set, loc⟩ := fragment
      rw [Selection.lexemes, InlineFragment.lexemes]
      exact ⟨_, _, rfl, .inl rfl⟩

theorem variableDefinition_begins {ok : VariableDefinition → Bool} :
    Begins VariableDefinition.lexemes ok fun next => next = .punctuator .dollar := by
  intro item _
  exact ⟨_, _, rfl, rfl⟩

section
variable {options : Options} (bare : options.noLocation = true) {levels : Nat}

theorem optionalPart_finds {part : Parser α} {spell : α → List Lexeme} {ok : α → Bool}
    {sort : Lexeme → Prop} {kind : TokenKind}
    (each : Finds options levels part spell ok fun _ _ => True)
    (begins : Begins spell ok sort) (ofKind : ∀ next, sort next → next.kind = kind) :
    Finds options levels (optionalPart kind part) (optionalLexemes spell) (·.all ok)
      fun node next => node = none → next.kind ≠ kind := by
  intro s s' node ready isOk moves follows
  unfold optionalPart
  rw [current_eq]
  cases node with
  | none =>
      obtain rfl := Moves.nil_eq moves
      have other : s.current.kind ≠ kind := follows rfl
      rw [if_neg other]
      rfl
  | some inner =>
      have innerOk : ok inner = true := isOk
      have moves : Moves s (spell inner) s' := moves
      have ahead : s.current.kind = kind := ofKind _ (begins.head innerOk moves)
      rw [if_pos ahead, bind_eq (each ready innerOk moves trivial)]
      rfl

include bare

theorem fragmentName_finds :
    Finds options levels fragmentName Name.lexemes
      (fun name => name.conforms options && name.value != "on") fun _ _ => True := by
  intro s s' node ready isOk moves _
  simp only [Bool.and_eq_true, bne_iff_ne] at isOk
  have other : s.current.lexeme ≠ .name "on" := by
    rw [Moves.head moves]
    intro same
    exact isOk.2 (Lexeme.name.inj same)
  unfold fragmentName
  rw [current_eq, if_neg other]
  exact name_finds bare ready isOk.1 moves trivial

theorem fieldKey_finds :
    Finds options levels fieldKey (fun key => aliasLexemes key.1 ++ key.2.lexemes)
      (fun key => key.1.all (·.conforms options) && key.2.conforms options)
      fun _ next => next ≠ .punctuator .colon := by
  intro s s' node ready isOk moves follows
  obtain ⟨responseAlias, key⟩ := node
  simp only [Bool.and_eq_true] at isOk
  unfold fieldKey
  cases responseAlias with
  | none =>
      have named := name_finds bare ready isOk.2 moves trivial
      rw [bind_eq named, bind_eq ((fixes_mark .colon).accept_false follows)]
      rfl
  | some first =>
      obtain ⟨s₁, behind, last⟩ := Moves.split moves
      obtain ⟨s₂, starts, colon⟩ := Moves.split behind
      have firstOk : first.conforms options = true := isOk.1
      have named := name_finds bare ready firstOk starts trivial
      have renamed := name_finds bare (behind.ready ready) isOk.2 last trivial
      rw [bind_eq named, bind_eq ((fixes_mark .colon).accept_true colon)]
      simp only [if_true]
      rw [bind_eq renamed]
      rfl

section
variable {set : Parser SelectionSet}
  (inner : Finds options levels set SelectionSet.lexemes (·.conforms options levels)
    fun _ _ => True)
include inner

theorem field_finds :
    Finds options levels (field set levels) Field.lexemes (·.conforms options levels)
      fun _ next => Ends next ∧ next ≠ .punctuator .braceOpen := by
  intro s s' node ready isOk moves follows
  obtain ⟨responseAlias, key, given, marks, nested, loc⟩ := node
  simp only [Field.conforms, optionalSetConforms_eq, Bool.and_eq_true] at isOk
  obtain ⟨⟨⟨⟨⟨aliasOk, keyOk⟩, givenOk⟩, marksOk⟩, nestedOk⟩, locOk⟩ := isOk
  obtain rfl := loc_none bare locOk
  simp only [Field.lexemes, optionalSetLexemes_eq] at moves
  obtain ⟨s₃, most, last⟩ := moves.split
  obtain ⟨s₂, some', third⟩ := most.split
  obtain ⟨s₁, first, second⟩ := some'.split
  have ready₁ := first.ready ready
  have ready₂ := second.ready ready₁
  have ready₃ := third.ready ready₂
  have headsSet : ∀ next ∈ (optionalLexemes SelectionSet.lexemes nested).head?,
      next = .punctuator .braceOpen := by
    cases nested with
    | none => simp [optionalLexemes]
    | some set =>
        obtain ⟨selections, loc⟩ := set
        rw [optionalLexemes, SelectionSet.lexemes]
        exact head_enclose
  have ends₃ : Ends s₃.current.lexeme := last.ends_of_heads headsSet rfl follows.1
  have ends₂ : s₂.current.lexeme ≠ .punctuator .parenOpen :=
    third.ne_of_heads head_directives (by simp) (ends₃.ne rfl)
  have colon₂ : s₂.current.lexeme ≠ .punctuator .colon :=
    third.ne_of_heads head_directives (by simp) (ends₃.ne rfl)
  have colon₁ : s₁.current.lexeme ≠ .punctuator .colon :=
    second.ne_of_heads head_enclose (by simp) colon₂
  have noSet : nested = none → s'.current.lexeme.kind ≠ .punctuator .braceOpen :=
    fun _ same => follows.2 ((fixes_mark .braceOpen _).mp same)
  have keyed : fieldKey s = .ok (responseAlias, key) s₁ :=
    fieldKey_finds bare ready (Bool.and_eq_true_iff.mpr ⟨aliasOk, keyOk⟩) first colon₁
  have listed := arguments_finds bare ready₁ givenOk second ends₂
  have marked := directives_finds bare ready₂ marksOk third ends₃.noDirective
  have opened := optionalPart_finds inner selectionSet_begins
    (by rintro _ rfl; rfl) ready₃ nestedOk last noSet
  rw [field_eq, current_eq, bind_eq keyed, bind_eq listed, bind_eq marked, bind_eq opened,
    bind_eq (span_none bare (last.ready ready₃) _)]
  rfl

theorem inlineBehind_finds {s s' : State} {condition : Option NamedType} {marks : List Directive}
    {nested : SelectionSet} {start : Token} (ready : s.Ready options levels)
    (marksOk : directivesConform options false levels marks = true)
    (nestedOk : nested.conforms options levels = true)
    (moves : Moves s (directivesLexemes marks ++ nested.lexemes) s') :
    inlineBehind set levels start condition s =
      .ok (.inline ⟨condition, marks, nested, none⟩) s' := by
  obtain ⟨s₁, first, last⟩ := moves.split
  have ready₁ := first.ready ready
  have ends : Ends s₁.current.lexeme := by
    rw [selectionSet_begins.head nestedOk last]
    rfl
  have marked := directives_finds bare ready marksOk first ends.noDirective
  have opened := inner ready₁ nestedOk last trivial
  rw [inlineBehind, bind_eq marked, bind_eq opened, bind_eq (span_none bare (last.ready ready₁) _)]
  rfl

omit inner in
theorem spread_finds {s s' : State} {spread : FragmentSpread} (ready : s.Ready options levels)
    (isOk : spread.conforms options levels = true)
    (moves : Moves s spread.lexemes s') (follows : Ends s'.current.lexeme) :
    spreadOrInline set levels s = .ok (.spread spread) s' := by
  obtain ⟨key, marks, loc⟩ := spread
  simp only [FragmentSpread.conforms, Bool.and_eq_true] at isOk
  obtain ⟨⟨keyOk, marksOk⟩, locOk⟩ := isOk
  obtain rfl := loc_none bare locOk
  obtain ⟨s₁, dots, onward⟩ := Moves.uncons moves
  obtain ⟨s₂, first, last⟩ := onward.split
  have ready₁ := dots.ready ready
  have ready₂ := first.ready ready₁
  have isName : s₁.current.kind = .name := by
    rw [Token.kind, Moves.head first]
    rfl
  have notOn : s₁.current.lexeme ≠ .name "on" := by
    rw [Moves.head first]
    intro same
    simp only [bne_iff_ne] at keyOk
    exact keyOk.2 (Lexeme.name.inj same)
  have named := fragmentName_finds bare ready₁ (Bool.and_eq_true_iff.mpr keyOk) first trivial
  have marked := directives_finds bare ready₂ marksOk last follows.noDirective
  rw [spreadOrInline_eq, current_eq, bind_eq ((fixes_mark .ellipsis).expect_eq dots),
    bind_eq (acceptKeyword_false notOn), if_neg Bool.false_ne_true, current_eq, if_pos isName,
    spreadBehind, bind_eq named, bind_eq marked, bind_eq (span_none bare (last.ready ready₂) _)]
  rfl

theorem inlineFragment_finds {s s' : State} {fragment : InlineFragment}
    (ready : s.Ready options levels) (isOk : fragment.conforms options levels = true)
    (moves : Moves s fragment.lexemes s') :
    spreadOrInline set levels s = .ok (.inline fragment) s' := by
  obtain ⟨condition, marks, nested, loc⟩ := fragment
  simp only [InlineFragment.conforms, Bool.and_eq_true] at isOk
  obtain ⟨⟨⟨conditionOk, marksOk⟩, nestedOk⟩, locOk⟩ := isOk
  obtain rfl := loc_none bare locOk
  simp only [InlineFragment.lexemes, List.append_assoc] at moves
  obtain ⟨s₁, dots, onward⟩ := moves.uncons
  have ready₁ := dots.ready ready
  rw [spreadOrInline_eq, current_eq, bind_eq ((fixes_mark .ellipsis).expect_eq dots)]
  cases condition with
  | none =>
      have plain : Moves s₁ (directivesLexemes marks ++ nested.lexemes) s' := onward
      have other : s₁.current.kind ≠ .name ∧ s₁.current.lexeme ≠ .name "on" := by
        obtain ⟨s₂, first, last⟩ := plain.split
        have opens := selectionSet_begins.head nestedOk last
        rcases first.at_mark head_directives with same | same
        · simp [Token.kind, same, Lexeme.kind]
        · simp [Token.kind, same, opens, Lexeme.kind]
      rw [bind_eq (acceptKeyword_false other.2), if_neg Bool.false_ne_true, current_eq,
        if_neg other.1]
      exact inlineBehind_finds bare inner ready₁ marksOk nestedOk plain
  | some type =>
      obtain ⟨s₂, word, behind⟩ := Moves.uncons onward
      obtain ⟨s₃, first, last⟩ := behind.split
      have ready₂ := word.ready ready₁
      have named := namedType_finds bare ready₂ conditionOk first trivial
      rw [bind_eq (acceptKeyword_true word), if_pos rfl, bind_eq named]
      exact inlineBehind_finds bare inner (first.ready ready₂) marksOk nestedOk last

end

theorem selection_finds {set : Parser SelectionSet} {levels : Nat}
    (inner : Finds options levels set SelectionSet.lexemes (·.conforms options levels)
      fun _ _ => True) :
    Finds options levels (selection set levels) Selection.lexemes (·.conforms options levels)
      fun _ next => Ends next ∧ next ≠ .punctuator .braceOpen := by
  intro s s' node ready isOk moves follows
  unfold selection
  rw [current_eq]
  cases node with
  | field node =>
      have read := field_finds bare inner ready isOk moves follows
      have isName : s.current.kind ≠ .punctuator .ellipsis := by
        obtain ⟨responseAlias, key, given, marks, nested, loc⟩ := node
        cases responseAlias <;> rw [Token.kind, Moves.head moves] <;> simp [Lexeme.kind]
      rw [if_neg isName, bind_eq read]
      rfl
  | spread spread =>
      simp only [Selection.conforms] at isOk
      have dots : s.current.kind = .punctuator .ellipsis := by
        rw [Token.kind, Moves.head moves]
        rfl
      rw [if_pos dots]
      exact spread_finds bare ready isOk moves follows.1
  | inline fragment =>
      simp only [Selection.conforms] at isOk
      simp only [Selection.lexemes] at moves
      have dots : s.current.kind = .punctuator .ellipsis := by
        obtain ⟨condition, marks, nested, loc⟩ := fragment
        simp only [InlineFragment.lexemes] at moves
        rw [Token.kind, moves.head]
        rfl
      rw [if_pos dots]
      exact inlineFragment_finds bare inner ready isOk moves

theorem selectionSetBody_finds {inner : Parser Selection}
    (each : Finds options levels inner Selection.lexemes (·.conforms options levels)
      fun _ next => Ends next ∧ next ≠ .punctuator .braceOpen) :
    Finds options levels (selectionSetBody inner) SelectionSet.lexemes
      (·.conforms options (levels + 1)) fun _ _ => True := by
  intro s s' node ready isOk moves _
  obtain ⟨selections, loc⟩ := node
  simp only [SelectionSet.conforms, selectionsConform_eq, Bool.and_eq_true] at isOk
  obtain ⟨listOk, locOk⟩ := isOk
  obtain rfl := loc_none bare locOk
  have some' : selections ≠ [] := by simpa using listOk.1
  rw [SelectionSet.lexemes, selectionsLexemes_eq,
    enclose_items (fun item _ => item.lexemes_ne_nil) some'] at moves
  have apart : ∀ next, OpensSelection next →
      (next ≠ .punctuator .braceClose ∧ next ≠ .eof) ∧
        Ends next ∧ next ≠ .punctuator .braceOpen := by
    rintro next (rfl | ⟨text, rfl⟩)
    · simp [Ends, goesOn]
    · simp [Ends, goesOn]
  have found := many_finds each selection_begins apart ⟨rfl, by simp⟩ ready (by simpa using listOk)
    moves trivial
  unfold selectionSetBody
  rw [current_eq, bind_eq found, bind_eq (span_none bare (moves.ready ready) _)]
  rfl

theorem selectionSet_finds (levels : Nat) :
    Finds options levels (selectionSet levels) SelectionSet.lexemes (·.conforms options levels)
      fun _ _ => True := by
  induction levels with
  | zero =>
      intro s s' node _ isOk
      simp [SelectionSet.conforms] at isOk
  | succ levels ih =>
      unfold selectionSet
      apply nested_finds
      exact selectionSetBody_finds bare (selection_finds bare ih)

section
variable {levels : Nat}

theorem variableDefinition_finds :
    Finds options levels (variableDefinition levels) VariableDefinition.lexemes
      (·.conforms options levels) fun _ => Ends := by
  intro s s' node ready isOk moves follows
  obtain ⟨declared, type, value, marks, loc⟩ := node
  simp only [VariableDefinition.conforms, Bool.and_eq_true] at isOk
  obtain ⟨⟨⟨⟨declaredOk, typeOk⟩, valueOk⟩, marksOk⟩, locOk⟩ := isOk
  obtain rfl := loc_none bare locOk
  obtain ⟨s₁, first, behind⟩ := Moves.split moves
  obtain ⟨s₂, colon, onward⟩ := Moves.uncons behind
  obtain ⟨s₄, most, last⟩ := onward.split
  obtain ⟨s₃, second, third⟩ := most.split
  have ready₁ := first.ready ready
  have ready₂ := colon.ready ready₁
  have ready₃ := second.ready ready₂
  have ready₄ := third.ready ready₃
  have noDefault : s₄.current.lexeme ≠ .punctuator .equals :=
    last.ne_of_heads head_directives (by simp) (follows.ne rfl)
  have noBang₄ : s₄.current.lexeme ≠ .punctuator .bang :=
    last.ne_of_heads head_directives (by simp) (follows.ne rfl)
  have noBang : s₃.current.lexeme ≠ .punctuator .bang :=
    third.ne_of_heads head_default (by simp) noBang₄
  have named := variableRef_finds bare ready declaredOk first trivial
  have typed := typeRef_finds bare levels ready₂ typeOk second noBang
  have given := defaultValue_finds bare ready₃ valueOk third noDefault
  have marked := directives_finds bare ready₄ marksOk last follows.noDirective
  unfold variableDefinition
  rw [current_eq, bind_eq named, bind_eq ((fixes_mark .colon).expect_eq colon), bind_eq typed,
    bind_eq given, bind_eq marked, bind_eq (span_none bare (last.ready ready₄) _)]
  rfl

theorem variableDefinitions_finds :
    Finds options levels (variableDefinitions levels) variableDefinitionsLexemes
      (fun found => found.all (·.conforms options levels))
      fun _ next => next ≠ .punctuator .parenOpen := by
  intro s s' node ready isOk moves follows
  have apart : ∀ next : Lexeme, next = .punctuator .dollar →
      (next ≠ .punctuator .parenClose ∧ next ≠ .eof) ∧ Ends next := by
    rintro _ rfl
    simp [Ends, goesOn]
  exact optionalMany_finds (@variableDefinition_finds _ bare _) variableDefinition_begins apart rfl
    ready isOk moves fun _ => follows

omit bare in
theorem operationType_finds {operation : OperationType} {s s' : State}
    (moves : Moves s [.name operation.keyword] s') : operationType s = .ok operation s' := by
  obtain ⟨ahead, moved⟩ := moves.one
  have kind : s.current.kind = .name := by
    rw [Token.kind, ahead]
    rfl
  have known : OperationType.ofKeyword? s.current.text = some operation := by
    rw [Token.text, ahead]
    cases operation <;> rfl
  unfold operationType
  rw [current_eq, bind_eq ((expect_eq kind).trans moved)]
  simp only [known]
  rfl

theorem operation_finds {full : Bool} :
    Finds options levels (operation levels) (OperationDefinition.lexemes full)
      (·.conforms options levels) fun _ _ => True := by
  intro s s' node ready isOk moves _
  obtain ⟨sort, key, declared, marks, set, loc⟩ := node
  simp only [OperationDefinition.conforms, Bool.and_eq_true] at isOk
  obtain ⟨⟨⟨⟨keyOk, variablesOk⟩, marksOk⟩, setOk⟩, locOk⟩ := isOk
  obtain rfl := loc_none bare locOk
  rw [operation_eq, current_eq]
  unfold OperationDefinition.lexemes at moves
  split at moves
  · rename_i alone
    simp only [OperationDefinition.isShorthand, Bool.and_eq_true, decide_eq_true_eq,
      Option.isNone_iff_eq_none, List.isEmpty_iff] at alone
    obtain ⟨⟨⟨⟨rfl, rfl⟩, rfl⟩, rfl⟩, _⟩ := alone
    have opens : s.current.kind = .punctuator .braceOpen :=
      (fixes_mark .braceOpen _).mpr (selectionSet_begins.head setOk moves)
    have read := selectionSet_finds bare levels ready setOk moves trivial
    rw [if_pos opens, bind_eq read, bind_eq (span_none bare (moves.ready ready) _)]
    rfl
  · obtain ⟨s₁, word, onward⟩ := moves.uncons
    obtain ⟨s₄, most, last⟩ := onward.split
    obtain ⟨s₃, some', third⟩ := most.split
    obtain ⟨s₂, first, second⟩ := some'.split
    have ready₁ := word.ready ready
    have ready₂ := first.ready ready₁
    have ready₃ := second.ready ready₂
    have ready₄ := third.ready ready₃
    have isWord : s.current.kind ≠ .punctuator .braceOpen := by
      rw [Token.kind, word.head]
      simp [Lexeme.kind]
    have opens := selectionSet_begins.head setOk last
    have ends₄ : Ends s₄.current.lexeme := by
      rw [opens]
      rfl
    have noList : s₃.current.lexeme ≠ .punctuator .parenOpen :=
      third.ne_of_heads head_directives (by simp) (ends₄.ne rfl)
    have noName : key = none → s₂.current.lexeme.kind ≠ .name := by
      intro _
      rcases second.at_mark head_enclose with same | same
      · simp [same, Lexeme.kind]
      rcases third.at_mark head_directives with next | next
      · simp [same, next, Lexeme.kind]
      · simp [same, next, opens, Lexeme.kind]
    have named := optionalPart_finds (name_finds bare) name_begins
      (by rintro _ ⟨text, rfl⟩; rfl) ready₁ keyOk first noName
    have listed := variableDefinitions_finds bare ready₂ variablesOk second noList
    have marked := directives_finds bare ready₃ marksOk third ends₄.noDirective
    have opened := selectionSet_finds bare levels ready₄ setOk last trivial
    rw [if_neg isWord, bind_eq (operationType_finds word), bind_eq named, bind_eq listed,
      bind_eq marked, bind_eq opened, bind_eq (span_none bare (last.ready ready₄) _)]
    rfl

theorem fragmentVariables_finds :
    Finds options levels (fragmentVariables levels) variableDefinitionsLexemes
      (fun found =>
        (options.fragmentVariables || found.isEmpty) && found.all (·.conforms options levels))
      fun _ next => next ≠ .punctuator .parenOpen := by
  intro s s' node ready isOk moves follows
  simp only [Bool.and_eq_true, Bool.or_eq_true, List.isEmpty_iff] at isOk
  have asked : allowsFragmentVariables s = .ok options.fragmentVariables s := by
    rw [allowsFragmentVariables, ready.fragmentVariables]
  unfold fragmentVariables
  rw [bind_eq asked]
  by_cases allowed : options.fragmentVariables = true
  · rw [if_pos allowed]
    exact variableDefinitions_finds bare ready isOk.2 moves follows
  · obtain rfl := isOk.1.resolve_left allowed
    obtain rfl := Moves.nil_eq moves
    rw [if_neg allowed]
    rfl

theorem fragment_finds :
    Finds options levels (fragment levels) FragmentDefinition.lexemes (·.conforms options levels)
      fun _ _ => True := by
  intro s s' node ready isOk moves _
  obtain ⟨key, declared, condition, marks, set, loc⟩ := node
  simp only [FragmentDefinition.conforms, Bool.and_eq_true] at isOk
  obtain ⟨⟨⟨⟨⟨⟨⟨keyOk, keyFree⟩, allowed⟩, variablesOk⟩, conditionOk⟩, marksOk⟩, setOk⟩, locOk⟩ :=
    isOk
  obtain rfl := loc_none bare locOk
  obtain ⟨s₁, word, onward⟩ := Moves.uncons moves
  obtain ⟨s₃, heads, behind⟩ := onward.split
  obtain ⟨s₂, first, second⟩ := heads.split
  obtain ⟨s₄, on, rest⟩ := behind.uncons
  obtain ⟨s₆, conditioned, last⟩ := rest.split
  obtain ⟨s₅, third, fourth⟩ := conditioned.split
  have ready₁ := word.ready ready
  have ready₂ := first.ready ready₁
  have ready₄ := on.ready (second.ready ready₂)
  have ready₅ := third.ready ready₄
  have ready₆ := fourth.ready ready₅
  have noList : s₃.current.lexeme ≠ .punctuator .parenOpen := by
    rw [on.head]
    simp
  have ends₆ : Ends s₆.current.lexeme := by
    rw [selectionSet_begins.head setOk last]
    rfl
  have named := fragmentName_finds bare ready₁
    (Bool.and_eq_true_iff.mpr ⟨keyOk, keyFree⟩) first trivial
  have listed := fragmentVariables_finds bare ready₂
    (Bool.and_eq_true_iff.mpr ⟨allowed, variablesOk⟩) second noList
  have typed := namedType_finds bare ready₄ conditionOk third trivial
  have marked := directives_finds bare ready₅ marksOk fourth ends₆.noDirective
  have opened := selectionSet_finds bare levels ready₆ setOk last trivial
  rw [fragment_eq, current_eq, bind_eq (expectKeyword_eq word), bind_eq named, bind_eq listed,
    bind_eq (expectKeyword_eq on), bind_eq typed, bind_eq marked, bind_eq opened,
    bind_eq (span_none bare (last.ready ready₆) _)]
  rfl

end

end

end GraphQL.Parser

import GraphQL.Proofs.Parser.Pairs.Document

/-!
A run beside itself. What the single steps of a parser keep, all of its productions keep, and what
holds of the errors that a step can give holds of all errors.
-/

namespace GraphQL.Parser

def Yields (fits : α → State → Prop) (errs : SyntaxError → Prop) :
    EStateM.Result SyntaxError State α → Prop
  | .ok a s => fits a s
  | .error e _ => errs e

/-- What a run keeps by itself: a property of its states, of the tokens that it comes to, and of its
errors. -/
structure Alone (keeps : State → Prop) (has : Token → Prop) (errs : SyntaxError → Prop) : Prop where
  current {s : State} (kept : keeps s) : has s.current
  moves {s : State} (kept : keeps s) : Yields (fun _ => keeps) errs (advance s)
  looks {s : State} (kept : keeps s) : Yields (fun token _ => has token) errs (lookahead s)
  atDepth {s : State} (kept : keeps s) (depth : Nat) : keeps (s.atDepth depth)
  fails {s : State} {token : Token} {complaint : Complaint} (kept : keeps s) (seen : has token)
    (about : complaint.Fits s token) : errs (complaint.error s.source token)

def Pairing.alone (keeps : State → Prop) (has : Token → Prop) (errs : SyntaxError → Prop) :
    Pairing where
  states s t := s = t ∧ keeps s
  tokens a b := a = b ∧ has a
  errors e f := e = f ∧ errs e
  levels := Eq
  relocate := id
  excused _ := False
  leads _ _ := True

variable {keeps : State → Prop} {has : Token → Prop} {errs : SyntaxError → Prop}

theorem onward_alone (before after : State) :
    (Pairing.alone keeps has errs).Onward before after := fun _ _ => trivial

theorem stays_alone {fits : α → β → Prop} {a : α} {b : β} {s : State} (fit : fits a b)
    (kept : keeps s) : (Pairing.alone keeps has errs).Outcome fits s (.ok a s) (.ok b s) :=
  ⟨fit, ⟨rfl, kept⟩, onward_alone _ _⟩

theorem advance_alone {s : State} (yields : Yields (fun _ => keeps) errs (advance s)) :
    (Pairing.alone keeps has errs).Outcome (fun a b => b = id a) s (advance s) (advance s) := by
  cases moved : advance s with
  | ok done s' =>
      rw [moved] at yields
      exact ⟨rfl, ⟨rfl, yields⟩, onward_alone _ _⟩
  | error e s' =>
      rw [moved] at yields
      exact ⟨onward_alone _ _, .inr ⟨e, s', rfl, rfl, yields⟩⟩

theorem span_alone (start : Token) :
    (Pairing.alone keeps has errs).Maps id (span start) (span start) := by
  rintro s _ ⟨rfl, kept⟩
  exact stays_alone rfl kept

namespace Alone

variable (alone : Alone keeps has errs)
include alone

theorem lookahead_alone :
    (Pairing.alone keeps has errs).Agree (Pairing.alone keeps has errs).tokens lookahead
      lookahead := by
  rintro s _ ⟨rfl, kept⟩
  have yields := alone.looks kept
  have steps := looked s
  generalize lookahead s = outcome at steps yields ⊢
  cases steps with
  | ended ends => exact stays_alone ⟨rfl, yields⟩ kept
  | failed goesOn next => exact ⟨onward_alone _ _, .inr ⟨_, _, rfl, rfl, yields⟩⟩
  | shown goesOn next => exact stays_alone ⟨rfl, yields⟩ kept

theorem tooDeep {s : State} (kept : keeps s) : errs s.tooDeepError :=
  alone.fails kept (alone.current kept) trivial

theorem lawful : (Pairing.alone keeps has errs).Lawful where
  lexeme_eq twins := congrArg Token.lexeme twins.1
  current_twins := by
    rintro s _ ⟨rfl, kept⟩
    exact ⟨rfl, alone.current kept⟩
  fail_errors := by
    rintro s _ a _ ⟨rfl, kept⟩ ⟨rfl, seen⟩ complaint _ about
    exact ⟨rfl, alone.fails kept seen about⟩
  advance_maps := by
    rintro s _ ⟨rfl, kept⟩
    exact advance_alone (alone.moves kept)
  lookahead_agree := alone.lookahead_alone
  span_maps := by
    rintro a _ ⟨rfl, _⟩
    exact span_alone a
  rounds_maps := by
    rintro s _ ⟨rfl, kept⟩
    exact stays_alone rfl kept
  opened deeper := Nat.succ.inj deeper
  closed deepest := deepest
  deepest := by
    rintro m s _ none ⟨rfl, kept⟩
    exact .inr ⟨none.symm, rfl, alone.tooDeep kept⟩
  full := by
    rintro s _ ⟨rfl, kept⟩ full
    exact .inr ⟨full, rfl, alone.tooDeep kept⟩
  opens := by
    rintro s _ ⟨rfl, kept⟩ free
    exact ⟨free, rfl, alone.atDepth kept _⟩
  closes := by
    rintro s _ ⟨rfl, kept⟩
    exact ⟨rfl, alone.atDepth kept _⟩
  nested_leads _ _ _ _ := trivial

theorem fragmentHeads : (Pairing.alone keeps has errs).FragmentHeads := by
  apply alone.lawful.fragmentHeads
  rintro s _ ⟨rfl, kept⟩
  exact stays_alone rfl kept

/-- If the move past the mark in front of a source comes to a state that is kept or to such an
error, such are all errors that parsing comes to. -/
theorem parse_error {source : Source} {options : Options} {error : SyntaxError}
    (begins : Yields (fun _ => keeps) errs (advance (.ofSource source options)))
    (failed : Document.parse source options = .error error ∨
      Value.parse source options = .error error ∨
      Value.parseConst source options = .error error ∨
      TypeRef.parse source options = .error error) : errs error := by
  obtain ⟨document, value, const, type⟩ := alone.lawful.parse_answers_begun alone.fragmentHeads
    rfl ⟨advance_alone begins, span_alone .sof⟩
  have errs_of {α : Type} {change : α → α} {first second : Except SyntaxError α}
      (answers : (Pairing.alone keeps has errs).Answers change first second)
      (failed : first = .error error) : errs error := by
    subst failed
    rcases answers with none | ⟨_, _, _, found⟩
    · exact none.elim
    · exact found
  rcases failed with failed | failed | failed | failed
  · exact errs_of document failed
  · exact errs_of value failed
  · exact errs_of const failed
  · exact errs_of type failed

end Alone

end GraphQL.Parser

import GraphQL.Proofs.Parser.Text

/-!
How much of a text is left. A parser that moves past a token of the text has one token less in
front of it, and no step, whether it succeeds or not, gives any back.
-/

namespace GraphQL

def TokenKind.isSpelled : TokenKind → Bool
  | sof | eof | comment => false
  | punctuator _ | name | int | float | string | blockString => true

theorem Token.isSpelled_of_kind {token : Token} {kind : TokenKind} (isKind : token.kind = kind)
    (spelled : kind.isSpelled = true) : token.lexeme.isSpelled = true := by
  rw [← isKind, Token.kind] at spelled
  cases found : token.lexeme <;> rw [found] at spelled <;> exact spelled

def isOfText : Except SyntaxError Token → Bool
  | .ok token => token.lexeme.isSpelled
  | .error _ => false

namespace TokenStream

variable {stream rest : TokenStream} {answer : Except SyntaxError Token}

theorem next_cases (next : stream.next = (answer, rest)) :
    stream.items = [] ∧ rest = stream ∧ stream.ending = answer ∨
      stream.items = answer :: rest.items ∧ rest.ending = stream.ending := by
  unfold TokenStream.next at next
  split at next <;> cases next
  · exact .inl ⟨‹_›, rfl, rfl⟩
  · exact .inr ⟨‹_›, rfl⟩

theorem Sane.next (sane : stream.Sane) (next : stream.next = (answer, rest)) : rest.Sane := by
  obtain ⟨_, rfl, _⟩ | ⟨items, ending⟩ := next_cases next
  · exact sane
  · refine ⟨fun token member => sane.goesOn token ?_, fun token same => sane.ends token ?_⟩
    · rw [items]
      exact List.mem_cons_of_mem _ member
    · rwa [← ending]

theorem Sane.last {token : Token} (sane : stream.Sane) (next : stream.next = (.ok token, rest))
    (ends : token.lexeme = .eof) : rest.items = [] := by
  obtain ⟨items, rfl, _⟩ | ⟨items, _⟩ := next_cases next
  · exact items
  · exact absurd ends (sane.goesOn token (by rw [items]; exact List.mem_cons_self))

end TokenStream

namespace Parser

/-- The significant tokens that a parser has not moved past, the marks around the text apart. -/
def State.left (s : State) : Nat :=
  s.upcoming.items.countP isOfText + if s.current.lexeme.isSpelled then 1 else 0

/-- The states that steps lead to from the start of a source, also where they fail. -/
inductive State.Reached (source : Source) (options : Options) : State → Prop
  | start : Reached source options (.ofSource source options)
  | advance {s : State} (reached : Reached source options s) :
      Reached source options (stopped (Parser.advance s))
  | lookahead {s : State} (reached : Reached source options s) :
      Reached source options (stopped (Parser.lookahead s))
  | atDepth {s : State} (reached : Reached source options s) (depth : Nat) :
      Reached source options (s.atDepth depth)

namespace State

variable {s : State} {token : Token} {rest : TokenStream} {error : SyntaxError}

theorem left_lt_rounds (s : State) : s.left < s.upcoming.items.length + 2 := by
  have few : s.upcoming.items.countP isOfText ≤ s.upcoming.items.length := List.countP_le_length
  unfold left
  split <;> omega

theorem left_failed (next : s.upcoming.next = (.error error, rest)) :
    ({ s with upcoming := rest } : State).left = s.left := by
  obtain ⟨_, rfl, _⟩ | ⟨items, _⟩ := TokenStream.next_cases next
  · rfl
  · simp only [left, items, List.countP_cons, isOfText, Bool.false_eq_true, if_false, Nat.add_zero]

theorem left_movedTo (sane : s.Sane) (next : s.upcoming.next = (.ok token, rest)) :
    (s.movedTo token rest).left + (if s.current.lexeme.isSpelled then 1 else 0) = s.left := by
  obtain ⟨items, rfl, ending⟩ | ⟨items, _⟩ := TokenStream.next_cases next
  · have ends := sane.stream.ends token ending
    simp [left, movedTo, items, ends, Lexeme.isSpelled]
  · rw [left, left, items, List.countP_cons]
    rfl

theorem Sane.failed (sane : s.Sane) (next : s.upcoming.next = (.error error, rest)) :
    ({ s with upcoming := rest } : State).Sane where
  stream := sane.stream.next next
  ended ends := by
    have items := sane.ended ends
    obtain ⟨_, rfl, _⟩ | ⟨more, _⟩ := TokenStream.next_cases next
    · exact items
    · rw [items] at more
      cases more

theorem Sane.movedTo (sane : s.Sane) (next : s.upcoming.next = (.ok token, rest)) :
    (s.movedTo token rest).Sane where
  stream := sane.stream.next next
  ended := sane.stream.last next

theorem Sane.atDepth (sane : s.Sane) (depth : Nat) : (s.atDepth depth).Sane :=
  ⟨sane.stream, sane.ended⟩

theorem Sane.advance (sane : s.Sane) : (stopped (Parser.advance s)).Sane := by
  have steps := advanced s
  generalize Parser.advance s = outcome at steps
  cases steps with
  | failed next => exact sane.failed next
  | ended next _ => exact sane.movedTo next
  | counted next _ _ | exceeded next _ _ _ =>
      exact ⟨(sane.movedTo next).stream, (sane.movedTo next).ended⟩

theorem Sane.lookahead (sane : s.Sane) : (stopped (Parser.lookahead s)).Sane := by
  have steps := looked s
  generalize Parser.lookahead s = outcome at steps
  cases steps with
  | ended _ | shown _ _ => exact sane
  | failed _ next => exact sane.failed next

theorem Reached.sane {source : Source} {options : Options} (reached : s.Reached source options) :
    s.Sane := by
  induction reached with
  | start => exact sane_ofSource source options
  | advance _ ih => exact ih.advance
  | lookahead _ ih => exact ih.lookahead
  | atDepth _ depth ih => exact ih.atDepth depth

end State

/-- An advance that succeeds takes the current token from what is left, if it is one of the
text. -/
theorem advance_left {s s' : State} (sane : s.Sane) (moved : advance s = .ok () s') :
    s'.left + (if s.current.lexeme.isSpelled then 1 else 0) = s.left := by
  have steps := advanced s
  rw [moved] at steps
  cases steps with
  | ended next _ | counted next _ _ => exact State.left_movedTo sane next

theorem advance_left_le {s : State} (sane : s.Sane) : (stopped (advance s)).left ≤ s.left := by
  have steps := advanced s
  generalize Parser.advance s = outcome at steps
  cases steps with
  | failed next => exact Nat.le_of_eq (State.left_failed next)
  | ended next _ | counted next _ _ | exceeded next _ _ _ =>
      have moved := State.left_movedTo sane next
      exact Nat.le.intro moved

/-- Moving past tokens of the text takes as many from what is left. -/
theorem Moves.left {s s' : State} {passed : List Lexeme} (moves : Moves s passed s')
    (spelled : AllSpelled passed) (sane : s.Sane) : s'.left + passed.length = s.left := by
  induction moves with
  | stay => rfl
  | @step s _ _ _ moved _ ih =>
      obtain ⟨first, others⟩ := allSpelled_cons.mp spelled
      have one := advance_left sane moved
      rw [if_pos first] at one
      have more := ih others (advance_sane sane moved).1
      rw [List.length_cons]
      omega

end Parser

end GraphQL

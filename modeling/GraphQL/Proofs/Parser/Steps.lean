import GraphQL.Parser.Basic

/-!
What a single step can do to a state. A parser changes its state in three ways only: it advances,
it looks ahead, and it opens and closes nodes that nest.
-/

namespace GraphQL.Parser

namespace State

def movedTo (s : State) (token : Token) (rest : TokenStream) : State :=
  { s with current := token, last := s.current, upcoming := rest }

def counted (s : State) : State := { s with tokenCount := s.tokenCount + 1 }

def under (s : State) (options : Options) : State := { s with options }

def tooManyError (s : State) (token : Token) (limit : Nat) : SyntaxError :=
  (Complaint.tooManyTokens limit).error s.source token

def tooDeepError (s : State) : SyntaxError :=
  (Complaint.tooDeep s.options.maxNestingDepth).error s.source s.current

theorem closed_opened (s : State) : s.opened.closed = s := rfl

end State

/-- The state in which a run stopped, whether it succeeded or not. -/
def stopped : EStateM.Result SyntaxError State α → State
  | .ok _ s => s
  | .error _ s => s

theorem stopped_map (wrap : α → β) (parser : Parser α) (s : State) :
    stopped ((wrap <$> parser) s) = stopped (parser s) := by
  show stopped (EStateM.map wrap parser s) = _
  unfold EStateM.map
  cases parser s <;> rfl

theorem stopped_bind (first : Parser α) (next : α → Parser β) (s : State) :
    stopped ((first >>= next) s) =
      match first s with
      | .ok part s₁ => stopped (next part s₁)
      | .error _ s₁ => s₁ := by
  show stopped (EStateM.bind first next s) = _
  unfold EStateM.bind
  cases first s <;> rfl

/-- All that an advance can do. -/
inductive Advanced (s : State) : EStateM.Result SyntaxError State Unit → Prop
  | failed {error : SyntaxError} {rest : TokenStream}
      (next : s.upcoming.next = (.error error, rest)) :
      Advanced s (.error error { s with upcoming := rest })
  | ended {token : Token} {rest : TokenStream} (next : s.upcoming.next = (.ok token, rest))
      (ends : token.lexeme = .eof) : Advanced s (.ok () (s.movedTo token rest))
  | counted {token : Token} {rest : TokenStream} (next : s.upcoming.next = (.ok token, rest))
      (goesOn : token.lexeme ≠ .eof)
      (within : ∀ limit, s.options.maxTokens = some limit → s.tokenCount + 1 ≤ limit) :
      Advanced s (.ok () (s.movedTo token rest).counted)
  | exceeded {token : Token} {rest : TokenStream} {limit : Nat}
      (next : s.upcoming.next = (.ok token, rest)) (goesOn : token.lexeme ≠ .eof)
      (limited : s.options.maxTokens = some limit) (beyond : limit < s.tokenCount + 1) :
      Advanced s (.error (s.tooManyError token limit) (s.movedTo token rest).counted)

theorem advance_eq_of_advanced {s : State} {outcome : EStateM.Result SyntaxError State Unit}
    (advanced : Advanced s outcome) : advance s = outcome := by
  unfold advance
  cases advanced with
  | failed next => simp only [next]
  | ended next ends => simp only [next, if_pos ends, State.movedTo]
  | counted next goesOn within =>
      simp only [next, if_neg goesOn]
      cases limited : s.options.maxTokens with
      | none => rfl
      | some limit =>
          have free : ¬limit < s.tokenCount + 1 := Nat.not_lt.mpr (within limit limited)
          simp only [if_neg free]
          rfl
  | exceeded next goesOn limited beyond =>
      simp only [next, if_neg goesOn, limited, if_pos beyond]
      rfl

theorem advanced (s : State) : Advanced s (advance s) := by
  have exists' : ∃ outcome, Advanced s outcome := by
    cases next : s.upcoming.next with
    | mk answer rest =>
    cases answer with
    | error error => exact ⟨_, .failed next⟩
    | ok token =>
        by_cases ends : token.lexeme = .eof
        · exact ⟨_, .ended next ends⟩
        cases limited : s.options.maxTokens with
        | none => exact ⟨_, .counted next ends fun limit some' => by simp [limited] at some'⟩
        | some limit =>
            by_cases beyond : limit < s.tokenCount + 1
            · exact ⟨_, .exceeded next ends limited beyond⟩
            · refine ⟨_, .counted next ends fun other same => ?_⟩
              obtain rfl : limit = other := Option.some.inj (limited.symm.trans same)
              exact Nat.le_of_not_lt beyond
  obtain ⟨outcome, found⟩ := exists'
  rwa [advance_eq_of_advanced found]

theorem advance_keeps {s s' : State} {done : Unit} (moved : advance s = .ok done s') :
    s'.source = s.source ∧ s'.last = s.current := by
  have steps := advanced s
  rw [moved] at steps
  cases steps <;> exact ⟨rfl, rfl⟩

/-- All that looking ahead can do: it moves nothing, and only an error is read for good. -/
inductive Looked (s : State) : EStateM.Result SyntaxError State Token → Prop
  | ended (ends : s.current.lexeme = .eof) : Looked s (.ok s.current s)
  | failed {error : SyntaxError} {rest : TokenStream} (goesOn : s.current.lexeme ≠ .eof)
      (next : s.upcoming.next = (.error error, rest)) :
      Looked s (.error error { s with upcoming := rest })
  | shown {token : Token} {rest : TokenStream} (goesOn : s.current.lexeme ≠ .eof)
      (next : s.upcoming.next = (.ok token, rest)) : Looked s (.ok token s)

theorem lookahead_eq_of_looked {s : State} {outcome : EStateM.Result SyntaxError State Token}
    (looked : Looked s outcome) : lookahead s = outcome := by
  unfold lookahead
  cases looked with
  | ended ends => rw [if_pos ends]
  | failed goesOn next => simp only [if_neg goesOn, next]
  | shown goesOn next => simp only [if_neg goesOn, next]

theorem looked (s : State) : Looked s (lookahead s) := by
  have exists' : ∃ outcome, Looked s outcome := by
    by_cases ends : s.current.lexeme = .eof
    · exact ⟨_, .ended ends⟩
    cases next : s.upcoming.next with
    | mk answer rest =>
    cases answer with
    | error error => exact ⟨_, .failed ends next⟩
    | ok token => exact ⟨_, .shown ends next⟩
  obtain ⟨outcome, found⟩ := exists'
  rwa [lookahead_eq_of_looked found]

end GraphQL.Parser

import GraphQL.Proofs.Parser.Steps
import GraphQL.Proofs.Upcoming

/-!
A parser follows a lexer: it stands at the token where the lexer stands, has the same tokens and
errors in front of it, and has counted the tokens that the lexer has kept up to there. Each step
of a parser is one call of its lexer, also where it fails.
-/

namespace GraphQL

/-- Comments do not count, and neither do the marks around a text. -/
def Lexeme.counts : Lexeme → Bool
  | sof | eof | comment _ => false
  | _ => true

def Token.counts (token : Token) : Bool := token.lexeme.counts

theorem Token.counts_of_comment {token : Token} (isComment : token.isSignificant = false) :
    token.counts = false := by
  unfold isSignificant at isComment
  unfold counts
  cases lexeme : token.lexeme <;> simp_all [Lexeme.isComment, Lexeme.counts]

theorem Token.counts_iff {token : Token} (significant : token.isSignificant = true)
    (inside : token.lexeme ≠ .sof) : token.counts = true ↔ token.lexeme ≠ .eof := by
  unfold isSignificant at significant
  unfold counts
  cases lexeme : token.lexeme <;> simp_all [Lexeme.isComment, Lexeme.counts]

/-- The tokens that count among those that a lexer has kept up to its current one. -/
def Lexer.counted (lexer : Lexer) : List Token :=
  (lexer.tokens.toList.take (lexer.current.index + 1)).filter Token.counts

namespace Grown

variable {source : Source} {clean : Bool} {behind : List Char} {tokens : List Token}

theorem nonempty (grown : Grown source clean behind tokens) : 0 < tokens.length := by
  induction grown with
  | start => exact Nat.zero_lt_one
  | token _ _ _ _ _ _ ih => simp
  | fault _ _ ih => exact ih

theorem index_eq (grown : Grown source clean behind tokens) {place : Nat} {token : Token}
    (here : tokens[place]? = some token) : token.index = place := by
  induction grown generalizing place token with
  | start =>
      cases place with
      | zero =>
          cases here
          rfl
      | succ place => cases here
  | @token clean behind gap slice after tokens read grown _ _ _ _ prev ih =>
      by_cases inside : place < tokens.length
      · rw [List.getElem?_append_left inside] at here
        exact ih here
      · have positive := grown.nonempty
        obtain ⟨short, _⟩ := List.getElem?_eq_some_iff.mp here
        rw [List.length_append, List.length_singleton] at short
        obtain rfl : place = tokens.length := by omega
        rw [List.getElem?_concat_length] at here
        cases here
        rw [Token.index, prev]
        dsimp only
        omega
  | fault _ _ ih => exact ih here

theorem begins (grown : Grown source clean behind tokens) :
    ∃ others, tokens = .sof :: others ∧ ∀ token ∈ others, token.lexeme ≠ .sof := by
  induction grown with
  | start => exact ⟨[], rfl, List.forall_mem_nil _⟩
  | @token clean behind gap slice after tokens read _ _ _ _ covers _ ih =>
      obtain ⟨others, rfl, each⟩ := ih
      refine ⟨others ++ [read], rfl, fun token member => ?_⟩
      rcases List.mem_append.mp member with old | new
      · exact each token old
      · rw [List.mem_singleton.mp new]
        exact covers.ne_sof
  | fault _ _ ih => exact ih

theorem ne_sof (grown : Grown source clean behind tokens) {before after : List Token}
    {token : Token} (split : tokens = before ++ token :: after) (later : before ≠ []) :
    token.lexeme ≠ .sof := by
  obtain ⟨others, front, each⟩ := grown.begins
  cases before with
  | nil => exact absurd rfl later
  | cons first rest =>
      rw [split] at front
      apply each
      rw [← List.tail_eq_of_cons_eq front]
      exact List.mem_append_right rest List.mem_cons_self

end Grown

namespace Lexer

variable {source : Source} {clean : Bool} {lexer next : Lexer} {token : Token}
  {error : SyntaxError} {passed : List Token}

theorem ahead_of_lookahead (goesOn : lexer.current.lexeme ≠ .eof) :
    lexer.lookahead.2.ahead = lexer.lookahead.1.toOption := by
  have looks := lexer.looks
  generalize lexer.lookahead = outcome at looks
  cases looks with
  | ended ends => exact absurd ends goesOn
  | seen _ seen => exact seen
  | token _ _ _ => rfl
  | failed _ unseen comes => exact comes.stays.ahead.trans unseen

/-- The tokens of a lexer: those that it has passed, its current one, comments, and the one that
it has looked at. -/
structure Laid (lexer : Lexer) (passed : List Token) : Prop where
  tokens : ∃ comments, lexer.tokens.toList =
      passed ++ lexer.current :: (comments ++ lexer.ahead.toList) ∧
    ∀ comment ∈ comments, comment.isSignificant = false
  shown : ∀ token, lexer.ahead = some token → token.isSignificant = true
  ended : lexer.current.lexeme = .eof → lexer.ahead = none

theorem Laid.unseen {tokens : Array Token} {current last : Token} {scan : Scan}
    {comments : List Token} (laid : tokens.toList = passed ++ current :: (comments ++ []))
    (each : ∀ comment ∈ comments, comment.isSignificant = false) :
    Laid ⟨source, tokens, current, last, none, scan⟩ passed where
  tokens := ⟨comments, laid, each⟩
  shown _ seen := by cases seen
  ended _ := rfl

theorem laid_ofSource (source : Source) : (ofSource source).Laid [] :=
  .unseen rfl (List.forall_mem_nil _)

theorem Laid.index_eq (laid : lexer.Laid passed) (reached : lexer.Reached source clean) :
    lexer.current.index = passed.length := by
  obtain ⟨_, _, _, grown⟩ := reached.holds
  obtain ⟨comments, laid, _⟩ := laid.tokens
  apply grown.index_eq
  rw [laid, List.getElem?_append_right (Nat.le_refl _), Nat.sub_self]
  rfl

theorem Laid.counted_eq (laid : lexer.Laid passed) (reached : lexer.Reached source clean) :
    lexer.counted = (passed ++ [lexer.current]).filter Token.counts := by
  obtain ⟨comments, tokens, _⟩ := laid.tokens
  have front : lexer.tokens.toList =
      (passed ++ [lexer.current]) ++ (comments ++ lexer.ahead.toList) := by
    rw [tokens, List.append_assoc]
    rfl
  rw [counted, laid.index_eq reached, front, List.take_left']
  simp

theorem Laid.get_current (laid : lexer.Laid passed) (reached : lexer.Reached source clean) :
    lexer.get? lexer.current.index = some lexer.current := by
  obtain ⟨comments, tokens, _⟩ := laid.tokens
  rw [get?, ← Array.getElem?_toList, tokens, laid.index_eq reached,
    List.getElem?_append_right (Nat.le_refl _), Nat.sub_self]
  rfl

theorem Passes.keeps {answer : Except SyntaxError Token} (passes : lexer.Passes next answer) :
    (∃ more, next.tokens.toList = lexer.tokens.toList ++ more ++ answer.toOption.toList ∧
      ∀ comment ∈ more, comment.isSignificant = false) ∧
    ∀ token, answer.toOption = some token → token.isSignificant = true := by
  cases passes with
  | @token more token comments significant kept =>
      constructor
      · exact ⟨more, kept, comments⟩
      · intro other same
        cases same
        exact significant
  | @error more error comments kept =>
      constructor
      · exact ⟨more, by rw [kept]; exact (List.append_nil _).symm, comments⟩
      · intro other same
        cases same

theorem Laid.lookahead (laid : lexer.Laid passed) :
    lexer.lookahead.2.Laid passed ∧ lexer.lookahead.2.current = lexer.current ∧
      lexer.lookahead.2.last = lexer.last := by
  by_cases ended : lexer.current.lexeme = .eof
  · rw [lookahead_ended ended]
    exact ⟨laid, rfl, rfl⟩
  cases seen : lexer.ahead with
  | some token =>
      rw [lookahead_seen ended seen]
      exact ⟨laid, rfl, rfl⟩
  | none =>
      obtain ⟨passes, current, last⟩ := lookahead_passes ended seen
      obtain ⟨⟨more, kept, others⟩, significant⟩ := passes.keeps
      obtain ⟨comments, tokens, each⟩ := laid.tokens
      have ahead := ahead_of_lookahead ended
      refine ⟨?_, current, last⟩
      constructor
      · refine ⟨comments ++ more, ?_, List.forall_mem_append.mpr ⟨each, others⟩⟩
        rw [kept, tokens, seen, current, ahead]
        simp
      · intro token shown
        rw [ahead] at shown
        exact significant token shown
      · intro ends
        rw [current] at ends
        exact absurd ends ended

/-- A move passes the current token and what is behind it up to the next one that is no comment.
At the end it stays there. -/
theorem Laid.advance (laid : lexer.Laid passed) (reached : lexer.Reached source clean)
    (moved : lexer.advance = (.ok token, next)) :
    ∃ passed', next.Laid passed' ∧ passed.length ≤ passed'.length ∧
      (passed' ++ [token]).filter Token.counts =
        (passed ++ [lexer.current]).filter Token.counts ++
          if token.lexeme = .eof then [] else [token] := by
  by_cases ended : lexer.current.lexeme = .eof
  · rw [advance_of_shown (lookahead_ended ended)] at moved
    cases moved
    refine ⟨passed, ?_, Nat.le_refl _, ?_⟩
    · obtain ⟨comments, tokens, each⟩ := laid.tokens
      rw [laid.ended ended] at tokens
      exact .unseen tokens each
    · rw [if_pos ended, List.append_nil]
  · obtain ⟨second, shown, rfl⟩ := shown_of_advance moved
    obtain ⟨looked, current, _⟩ := laid.lookahead
    have reached' := lookahead_reached reached
    have ahead := ahead_of_lookahead ended
    rw [shown] at looked current reached' ahead
    obtain ⟨comments, tokens, each⟩ := looked.tokens
    have whole : second.tokens.toList = passed ++ second.current :: comments ++ [token] := by
      rw [tokens, ahead]
      simp [Except.toOption]
    refine ⟨passed ++ second.current :: comments, .unseen whole (List.forall_mem_nil _), ?_, ?_⟩
    · rw [List.length_append]
      exact Nat.le_add_right _ _
    · obtain ⟨_, _, _, grown⟩ := reached'.holds
      have later : token.lexeme ≠ .sof := grown.ne_sof whole (by simp)
      have significant := looked.shown token ahead
      have none : comments.filter Token.counts = [] :=
        List.filter_eq_nil_iff.mpr fun comment member => by
          simp [Token.counts_of_comment (each comment member)]
      have here : [token].filter Token.counts = if token.lexeme = .eof then [] else [token] := by
        simp [List.filter_cons, Token.counts_iff significant later]
      rw [List.filter_append, here, current, List.append_cons, List.filter_append, none,
        List.append_nil]

end Lexer

namespace Parser

/-- The parser stands where the lexer stands, has the same in front of it, and has counted the
tokens up to there. -/
structure Follows (lexer : Lexer) (s : State) : Prop where
  reached : ∃ clean, lexer.Reached s.source clean
  laid : ∃ passed, lexer.Laid passed
  current : s.current = lexer.current
  last : s.last = lexer.last
  upcoming : s.upcoming = lexer.upcoming
  tokenCount : s.tokenCount = lexer.counted.length

variable {lexer : Lexer} {s : State} {token : Token} {rest : TokenStream} {error : SyntaxError}

theorem follows_ofSource (source : Source) (options : Options) :
    Follows (.ofSource source) (.ofSource source options) where
  reached := ⟨true, Lexer.reached_ofSource source⟩
  laid := ⟨[], Lexer.laid_ofSource source⟩
  current := rfl
  last := rfl
  upcoming := TokenStream.significant_ofSource source
  tokenCount := rfl

namespace Follows

theorem some_token (follows : Follows lexer s) : 0 < lexer.tokens.size := by
  obtain ⟨passed, laid⟩ := follows.laid
  obtain ⟨comments, tokens, _⟩ := laid.tokens
  rw [← Array.length_toList, tokens, List.length_append, List.length_cons]
  omega

theorem atDepth (follows : Follows lexer s) (depth : Nat) : Follows lexer (s.atDepth depth) :=
  ⟨follows.reached, follows.laid, follows.current, follows.last, follows.upcoming,
    follows.tokenCount⟩

theorem moved (follows : Follows lexer s) (next : s.upcoming.next = (.ok token, rest)) :
    ∃ onward, lexer.advance = (.ok token, onward) ∧
      onward.counted = lexer.counted ++ (if token.lexeme = .eof then [] else [token]) ∧
      Follows onward { s.movedTo token rest with tokenCount := onward.counted.length } ∧
      lexer.current.index ≤ onward.current.index := by
  have front := Lexer.upcoming_of_advance follows.some_token
  rw [← follows.upcoming, next] at front
  obtain ⟨answered, behind⟩ := Prod.mk.inj front
  have moved : lexer.advance = (.ok token, lexer.advance.2) := Prod.ext answered.symm rfl
  obtain ⟨clean, reached⟩ := follows.reached
  obtain ⟨passed, laid⟩ := follows.laid
  have reached' := Lexer.advance_reached reached
  obtain ⟨passed', laid', longer, counted⟩ := laid.advance reached moved
  obtain ⟨second, shown, same⟩ := Lexer.shown_of_advance moved
  have stays := laid.lookahead.2
  rw [shown] at stays
  have current : lexer.advance.2.current = token := by rw [same]
  refine ⟨lexer.advance.2, moved, ?_, ?_, ?_⟩
  · rw [laid'.counted_eq reached', current, counted, laid.counted_eq reached]
  · constructor
    · exact ⟨_, reached'⟩
    · exact ⟨passed', laid'⟩
    · exact current.symm
    · rw [same]
      exact follows.current.trans stays.1.symm
    · exact behind
    · rfl
  · rw [laid.index_eq reached, laid'.index_eq reached']
    exact longer

theorem failed (follows : Follows lexer s) (next : s.upcoming.next = (.error error, rest)) :
    ∃ onward, lexer.advance = (.error error, onward) ∧
      lexer.lookahead = (.error error, onward) ∧ Follows onward { s with upcoming := rest } ∧
      onward.current = lexer.current := by
  have front := Lexer.upcoming_of_advance follows.some_token
  rw [← follows.upcoming, next] at front
  obtain ⟨answered, behind⟩ := Prod.mk.inj front
  have moved : lexer.advance = (.error error, lexer.advance.2) := Prod.ext answered.symm rfl
  have shown := Lexer.failed_of_advance moved
  obtain ⟨clean, reached⟩ := follows.reached
  obtain ⟨passed, laid⟩ := follows.laid
  have reached' := Lexer.advance_reached reached
  obtain ⟨laid', current, last⟩ := laid.lookahead
  rw [shown] at laid' current last
  refine ⟨lexer.advance.2, moved, shown, ?_, current⟩
  constructor
  · exact ⟨_, reached'⟩
  · exact ⟨passed, laid'⟩
  · exact follows.current.trans current.symm
  · exact follows.last.trans last.symm
  · exact behind
  · rw [laid'.counted_eq reached', current, ← laid.counted_eq reached]
    exact follows.tokenCount

/-- One step of a parser is one call of the lexer, which never goes back. -/
theorem advance (follows : Follows lexer s) :
    Follows lexer.advance.2 (stopped (Parser.advance s)) ∧
      lexer.current.index ≤ lexer.advance.2.current.index := by
  have steps := advanced s
  generalize Parser.advance s = outcome at steps
  cases steps with
  | failed next =>
      obtain ⟨onward, moved, _, further, current⟩ := follows.failed next
      rw [moved]
      exact ⟨further, Nat.le_of_eq (congrArg Token.index current.symm)⟩
  | ended next ends =>
      obtain ⟨onward, moved, counted, further, later⟩ := follows.moved next
      rw [moved]
      rw [counted, if_pos ends, List.append_nil, ← follows.tokenCount] at further
      exact ⟨further, later⟩
  | counted next goesOn _ | exceeded next goesOn _ _ =>
      obtain ⟨onward, moved, counted, further, later⟩ := follows.moved next
      rw [moved]
      rw [counted, if_neg goesOn, List.length_append, ← follows.tokenCount] at further
      exact ⟨further, later⟩

theorem advance_ok (follows : Follows lexer s) {s' : State} {done : Unit}
    (moved : Parser.advance s = .ok done s') :
    ∃ token onward, lexer.advance = (.ok token, onward) ∧ Follows onward s' := by
  have further := follows.advance.1
  have steps := advanced s
  rw [moved] at steps further
  cases steps with
  | ended next _ | counted next _ _ =>
      obtain ⟨onward, moves, _⟩ := follows.moved next
      rw [moves] at further
      exact ⟨_, onward, moves, further⟩

theorem shown (follows : Follows lexer s) {next : Lexer}
    (shown : lexer.lookahead = (.ok token, next)) :
    Follows next s ∧ next.current = lexer.current := by
  obtain ⟨clean, reached⟩ := follows.reached
  obtain ⟨passed, laid⟩ := follows.laid
  obtain ⟨laid', current, last⟩ := laid.lookahead
  have reached' := Lexer.lookahead_reached reached
  have upcoming := (Lexer.upcoming_of_shown follows.some_token shown).2
  rw [shown] at laid' current last reached'
  refine ⟨?_, current⟩
  constructor
  · exact ⟨_, reached'⟩
  · exact ⟨passed, laid'⟩
  · exact follows.current.trans current.symm
  · exact follows.last.trans last.symm
  · exact follows.upcoming.trans upcoming.symm
  · rw [laid'.counted_eq reached', current, ← laid.counted_eq reached]
    exact follows.tokenCount

theorem lookahead (follows : Follows lexer s) :
    Follows lexer.lookahead.2 (stopped (Parser.lookahead s)) ∧
      lexer.lookahead.2.current = lexer.current := by
  have steps := looked s
  generalize Parser.lookahead s = outcome at steps
  cases steps with
  | ended ends =>
      rw [follows.current] at ends
      have shown := Lexer.lookahead_ended ends
      rw [shown]
      exact follows.shown shown
  | failed goesOn next =>
      obtain ⟨onward, _, shown, further, current⟩ := follows.failed next
      rw [shown]
      exact ⟨further, current⟩
  | @shown token rest goesOn next =>
      obtain ⟨onward, moved, _⟩ := follows.moved next
      obtain ⟨second, shown, _⟩ := Lexer.shown_of_advance moved
      rw [shown]
      exact follows.shown shown

end Follows

end Parser

end GraphQL

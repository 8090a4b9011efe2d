import GraphQL.Proofs.Lexed

/-!
The token stream of a source and its lexer both follow the lexemes of its text: neither skips
one, and neither stops before the end.
-/

namespace GraphQL

open Lexical (lexeme)

theorem dropWhile_length_le (text : List Char) :
    (text.dropWhile Scan.isIgnored).length ≤ text.length :=
  (List.dropWhile_sublist Scan.isIgnored).length_le

/-- A lexeme takes a character at least, so reading comes to an end. -/
theorem length_behind_lt {text : List Char} {size : Nat} {found : Lexeme}
    (read : lexeme (text.dropWhile Scan.isIgnored) = .done size found) (more : found ≠ .eof) :
    ((text.dropWhile Scan.isIgnored).drop size).length < text.length := by
  have bound := dropWhile_length_le text
  cases ahead : text.dropWhile Scan.isIgnored with
  | nil =>
      rw [ahead] at read
      cases read
      exact absurd rfl more
  | cons c rest =>
      rw [ahead] at read bound
      have outcome : (lexeme (c :: rest)).outcome = .ok found := by
        rw [read]
        rfl
      have taken := (Lexical.lexeme_ok outcome).1
      rw [read] at taken
      simp only [Lexical.Reading.done] at taken
      simp only [List.length_cons, List.length_drop] at bound ⊢
      omega

theorem blank_of_eof {text : List Char} {size : Nat}
    (read : lexeme (text.dropWhile Scan.isIgnored) = .done size .eof) :
    text.dropWhile Scan.isIgnored = [] := by
  cases ahead : text.dropWhile Scan.isIgnored with
  | nil => rfl
  | cons c rest =>
      rw [ahead] at read
      have outcome : (lexeme (c :: rest)).outcome = .ok .eof := by
        rw [read]
        rfl
      rcases (Lexical.lexeme_ok outcome).2 with sort | sort <;> cases sort

theorem Token.isSignificant_of_eof {token : Token} (ends : token.lexeme = .eof) :
    token.isSignificant = true := by
  rw [Token.isSignificant, ends]
  rfl

namespace Scan

variable {scan : Scan}

theorem rest_skipIgnored (scan : Scan) :
    scan.skipIgnored.rest = scan.rest.dropWhile isIgnored :=
  Lexical.drop_length_takeWhile isIgnored scan.rest

theorem read_ok {source : Source} {prev : Nat} {token : Token} {next : Scan}
    (read : scan.read source prev = (.ok token, next)) :
    ∃ size, lexeme (scan.rest.dropWhile isIgnored) = .done size token.lexeme ∧
      next.rest = (scan.rest.dropWhile isIgnored).drop size := by
  rw [← rest_skipIgnored]
  unfold Scan.read at read
  cases outcome : (lexeme scan.skipIgnored.rest).outcome with
  | error fault =>
      simp only [outcome] at read
      cases read
  | ok found =>
      simp only [outcome] at read
      cases read
      exact ⟨_, by rw [Lexical.Reading.done, ← outcome], rfl⟩

theorem read_done (source : Source) (prev : Nat) {size : Nat} {found : Lexeme}
    (reading : lexeme (scan.rest.dropWhile isIgnored) = .done size found) :
    ∃ token next, scan.read source prev = (.ok token, next) ∧ token.lexeme = found ∧
      next.rest = (scan.rest.dropWhile isIgnored).drop size := by
  rw [← rest_skipIgnored] at reading ⊢
  simp only [Scan.read, reading, Lexical.Reading.done]
  exact ⟨_, _, rfl, rfl, rfl⟩

theorem read_shorter {source : Source} {prev : Nat} {token : Token} {next : Scan}
    (read : scan.read source prev = (.ok token, next)) (more : token.lexeme ≠ .eof) :
    next.rest.length < scan.rest.length := by
  obtain ⟨size, reading, rest⟩ := read_ok read
  rw [rest]
  exact length_behind_lt reading more

/-- From a scan on, behind the token at place `prev`, a source is read to its end without an
error: first these tokens, then the last one. -/
inductive ReadsTo (source : Source) : (prev : Nat) → Scan → List Token → (last : Token) → Prop
  | finish {prev : Nat} {scan next : Scan} {last : Token}
      (read : scan.read source prev = (.ok last, next)) (ends : last.lexeme = .eof) :
      ReadsTo source prev scan [] last
  | token {prev : Nat} {scan next : Scan} {token last : Token} {tokens : List Token}
      (read : scan.read source prev = (.ok token, next)) (more : token.lexeme ≠ .eof)
      (behind : ReadsTo source (prev + 1) next tokens last) :
      ReadsTo source prev scan (token :: tokens) last

theorem readsTo_of_lexed {text : List Char} {lexemes : List Lexeme} (lexed : Lexed text lexemes)
    (source : Source) (prev : Nat) {scan : Scan} (ahead : scan.rest = text) :
    ∃ tokens last, ReadsTo source prev scan tokens last ∧ tokens.map Token.lexeme = lexemes := by
  induction lexed generalizing prev scan with
  | @finish text blank =>
      subst ahead
      have reading : lexeme (scan.rest.dropWhile isIgnored) = .done 0 .eof := by
        rw [blank]
        rfl
      obtain ⟨last, next, read, ends, _⟩ := read_done source prev reading
      exact ⟨[], last, .finish read ends, rfl⟩
  | @token text size found tail reading more behind ih =>
      subst ahead
      obtain ⟨token, next, read, rfl, rest⟩ := read_done source prev reading
      obtain ⟨tokens, last, reads, rfl⟩ := ih (prev + 1) rest
      exact ⟨token :: tokens, last, .token read more reads, rfl⟩

theorem ReadsTo.ends {source : Source} {prev : Nat} {tokens : List Token} {last : Token}
    (reads : ReadsTo source prev scan tokens last) : last.lexeme = .eof := by
  induction reads with
  | finish _ ends => exact ends
  | token _ _ _ ih => exact ih

end Scan

namespace TokenStream

/-- A stream of these lexemes without any error, up to the end of its text. -/
def Gives (stream : TokenStream) (lexemes : List Lexeme) : Prop :=
  (∃ tokens : List Token, stream.items = tokens.map .ok ∧ tokens.map Token.lexeme = lexemes) ∧
    ∃ last, stream.ending = .ok last ∧ last.lexeme = .eof

theorem Gives.cons {stream : TokenStream} {lexemes : List Lexeme} (gives : stream.Gives lexemes)
    (token : Token) : (stream.cons (.ok token)).Gives (token.lexeme :: lexemes) := by
  obtain ⟨⟨tokens, items, rfl⟩, ending⟩ := gives
  exact ⟨⟨token :: tokens, by simp [TokenStream.cons, items], rfl⟩, ending⟩

theorem Gives.of_cons {stream : TokenStream} {token : Token} {lexemes : List Lexeme}
    (gives : (stream.cons (.ok token)).Gives lexemes) :
    ∃ tail, lexemes = token.lexeme :: tail ∧ stream.Gives tail := by
  obtain ⟨⟨tokens, items, rfl⟩, ending⟩ := gives
  cases tokens with
  | nil => cases items
  | cons first rest =>
      obtain ⟨same, others⟩ := List.cons.inj items
      cases same
      exact ⟨_, rfl, ⟨rest, others, rfl⟩, ending⟩

theorem not_gives_error {stream : TokenStream} {error : SyntaxError} {lexemes : List Lexeme} :
    ¬(stream.cons (.error error)).Gives lexemes := by
  rintro ⟨⟨tokens, items, _⟩, _⟩
  cases tokens <;> cases items

theorem ofScan_eq {source : Source} {prev : Nat} {scan : Scan} {tokens : List Token}
    {last : Token} (readsTo : scan.ReadsTo source prev tokens last) {reads : Nat}
    (enough : scan.rest.length ≤ reads) :
    ofScan source prev scan reads = ⟨tokens.map .ok, .ok last⟩ := by
  induction readsTo generalizing reads with
  | finish read ends =>
      cases reads with
      | zero => rw [ofScan, read]; rfl
      | succ reads => simp only [ofScan, read, if_pos ends, List.map_nil]
  | token read more _ ih =>
      have shorter := Scan.read_shorter read more
      cases reads with
      | zero => omega
      | succ reads =>
          simp only [ofScan, read, if_neg more]
          rw [ih (by omega)]
          rfl

theorem lexed_of_gives {source : Source} {reads : Nat} :
    ∀ {prev : Nat} {scan : Scan} {lexemes : List Lexeme}, scan.rest.length ≤ reads →
      (ofScan source prev scan reads).Gives lexemes → Lexed scan.rest lexemes := by
  induction reads with
  | zero =>
      intro prev scan lexemes short gives
      have empty : scan.rest = [] := List.length_eq_zero_iff.mp (by omega)
      obtain ⟨⟨tokens, items, rfl⟩, _⟩ := gives
      obtain rfl : tokens = [] := by simpa [ofScan] using items
      rw [empty]
      exact .nil
  | succ reads ih =>
      intro prev scan lexemes short gives
      rw [ofScan] at gives
      cases read : scan.read source prev with
      | mk result next =>
      rw [read] at gives
      cases result with
      | error error =>
          exfalso
          dsimp only at gives
          split at gives
          · exact not_gives_error gives
          · obtain ⟨_, last, ending, _⟩ := gives
            cases ending
      | ok token =>
          obtain ⟨size, reading, rest⟩ := Scan.read_ok read
          dsimp only at gives
          split at gives
          · rename_i ends
            obtain ⟨⟨tokens, items, rfl⟩, _⟩ := gives
            obtain rfl : tokens = [] := by simpa using items.symm
            rw [ends] at reading
            exact .finish (blank_of_eof reading)
          · rename_i more
            obtain ⟨tail, rfl, left⟩ := gives.of_cons
            have shorter := length_behind_lt reading more
            rw [← rest] at shorter
            have behind := ih (by omega) left
            rw [rest] at behind
            exact .token reading more behind

theorem gives_ofSource (source : Source) (lexemes : List Lexeme) :
    (ofSource source).Gives lexemes ↔ Lexed source.chars lexemes := by
  constructor
  · exact lexed_of_gives (Nat.le_refl _)
  · intro lexed
    obtain ⟨tokens, last, reads, rfl⟩ :=
      @Scan.readsTo_of_lexed _ _ lexed source 0 (.ofSource source) rfl
    have whole : ofSource source = ⟨tokens.map .ok, .ok last⟩ := ofScan_eq reads (Nat.le_refl _)
    rw [whole]
    exact ⟨⟨tokens, rfl, rfl⟩, last, rfl, reads.ends⟩

theorem exists_tokens {items : List (Except SyntaxError Token)} {tokens : List Token}
    (kept : items.filter isSignificant = tokens.map .ok) :
    ∃ all : List Token, items = all.map .ok ∧ all.filter Token.isSignificant = tokens := by
  induction items generalizing tokens with
  | nil =>
      cases tokens with
      | nil => exact ⟨[], rfl, rfl⟩
      | cons token rest => cases kept
  | cons item rest ih =>
      cases item with
      | error error =>
          rw [List.filter_cons_of_pos rfl] at kept
          cases tokens <;> cases kept
      | ok token =>
          by_cases significant : token.isSignificant = true
          · have shown : isSignificant (.ok token) = true := significant
            rw [List.filter_cons_of_pos shown] at kept
            cases tokens with
            | nil => cases kept
            | cons first others =>
                obtain ⟨same, behind⟩ := List.cons.inj kept
                cases same
                obtain ⟨all, rfl, rfl⟩ := ih behind
                exact ⟨token :: all, rfl, List.filter_cons_of_pos significant⟩
          · have hidden : ¬isSignificant (.ok token) = true := significant
            rw [List.filter_cons_of_neg hidden] at kept
            obtain ⟨all, rfl, rfl⟩ := ih kept
            exact ⟨token :: all, rfl, List.filter_cons_of_neg significant⟩

theorem gives_significant {stream : TokenStream} {lexemes : List Lexeme} :
    stream.significant.Gives lexemes ↔
      ∃ all, stream.Gives all ∧ lexemes = all.filter fun found => !found.isComment := by
  have filtered : ∀ tokens : List Token, (tokens.filter Token.isSignificant).map Token.lexeme =
      (tokens.map Token.lexeme).filter fun found => !found.isComment := by
    intro tokens
    rw [List.filter_map]
    rfl
  constructor
  · rintro ⟨⟨tokens, items, rfl⟩, ending⟩
    obtain ⟨all, split, rfl⟩ := exists_tokens items
    exact ⟨_, ⟨⟨all, split, rfl⟩, ending⟩, filtered all⟩
  · rintro ⟨_, ⟨⟨tokens, items, rfl⟩, ending⟩, rfl⟩
    refine ⟨⟨tokens.filter Token.isSignificant, ?_, filtered tokens⟩, ending⟩
    rw [significant, items, List.filter_map]
    rfl

end TokenStream

namespace Lexer

def lexemes (lexer : Lexer) : List Lexeme := lexer.tokens.toList.map Token.lexeme

theorem read_ok {lexer next : Lexer} {token : Token} (read : lexer.read = (.ok token, next)) :
    ∃ scan, lexer.scan.read lexer.source (lexer.tokens.size - 1) = (.ok token, scan) ∧
      next = { lexer with tokens := lexer.tokens.push token, scan } := by
  unfold Lexer.read at read
  cases scanned : lexer.scan.read lexer.source (lexer.tokens.size - 1) with
  | mk answer scan =>
  rw [scanned] at read
  cases answer with
  | error error => cases read
  | ok found =>
      cases read
      exact ⟨scan, rfl, rfl⟩

/-- A lexer that can read these tokens, up to the last one, which ends its text. -/
def ReadsTo (lexer : Lexer) (tokens : List Token) (last : Token) : Prop :=
  0 < lexer.tokens.size ∧
    lexer.scan.ReadsTo lexer.source (lexer.tokens.size - 1) tokens last

theorem read_last {lexer : Lexer} {last : Token} (reads : lexer.ReadsTo [] last) :
    ∃ next, lexer.read = (.ok last, next) ∧
      next.tokens.toList = lexer.tokens.toList ++ [last] := by
  obtain ⟨_, reads⟩ := reads
  cases reads with
  | @finish _ _ scan _ read ends =>
      refine ⟨{ lexer with tokens := lexer.tokens.push last, scan }, ?_, by simp⟩
      simp only [Lexer.read, read]

theorem read_first {lexer : Lexer} {token last : Token} {tokens : List Token}
    (reads : lexer.ReadsTo (token :: tokens) last) :
    token.lexeme ≠ .eof ∧ ∃ next, lexer.read = (.ok token, next) ∧
      next.tokens.toList = lexer.tokens.toList ++ [token] ∧
      next.scan.rest.length < lexer.scan.rest.length ∧ next.ReadsTo tokens last := by
  obtain ⟨some', reads⟩ := reads
  cases reads with
  | @token _ _ scan _ _ _ read more behind =>
      refine ⟨more, { lexer with tokens := lexer.tokens.push token, scan }, ?_, by simp,
        Scan.read_shorter read more, ?_⟩
      · simp only [Lexer.read, read]
      · have place : (lexer.tokens.push token).size - 1 = lexer.tokens.size - 1 + 1 := by
          rw [Array.size_push]
          omega
        refine ⟨by simp, ?_⟩
        show Scan.ReadsTo lexer.source ((lexer.tokens.push token).size - 1) scan tokens last
        rwa [place]

/-- Moving on reads all comments in front of the next significant token, or all that are left
in front of the end. -/
theorem readSignificant_readsTo {tokens : List Token} {last : Token} {lexer : Lexer}
    {comments : Nat} (reads : lexer.ReadsTo tokens last)
    (enough : lexer.scan.rest.length ≤ comments) :
    ∃ token next front, lexer.readSignificant comments = (.ok token, next) ∧
      next.tokens.toList = lexer.tokens.toList ++ front ++ [token] ∧
      ((token = last ∧ tokens = front) ∨
        (token.lexeme ≠ .eof ∧ next.scan.rest.length < lexer.scan.rest.length ∧
          ∃ tail, tokens = front ++ token :: tail ∧ next.ReadsTo tail last)) := by
  induction tokens generalizing lexer comments with
  | nil =>
      obtain ⟨next, read, kept⟩ := read_last reads
      have significant := Token.isSignificant_of_eof reads.2.ends
      refine ⟨last, next, [], ?_, by rw [kept, List.append_nil], .inl ⟨rfl, rfl⟩⟩
      cases comments <;> simp only [readSignificant, read, significant, if_true]
  | cons token tokens ih =>
      obtain ⟨more, next, read, kept, shorter, behind⟩ := read_first reads
      by_cases significant : token.isSignificant = true
      · refine ⟨token, next, [], ?_, by rw [kept, List.append_nil],
          .inr ⟨more, shorter, tokens, rfl, behind⟩⟩
        cases comments <;> simp only [readSignificant, read, significant, if_true]
      · cases comments with
        | zero => omega
        | succ comments =>
            have fewer : next.scan.rest.length ≤ comments := by omega
            obtain ⟨found, final, front, moved, all, outcome⟩ := ih behind fewer
            refine ⟨found, final, token :: front, ?_, by rw [all, kept]; simp, ?_⟩
            · simp only [readSignificant, read, significant]
              exact moved
            · rcases outcome with ⟨ends, rfl⟩ | ⟨goesOn, less, others, rfl, left⟩
              · exact .inl ⟨ends, rfl⟩
              · exact .inr ⟨goesOn, by omega, others, rfl, left⟩

theorem finish_readsTo {lexer : Lexer} {steps : Nat} {tokens : List Token} {last : Token}
    (reads : lexer.ReadsTo tokens last) (enough : lexer.scan.rest.length < steps)
    (unseen : lexer.ahead = none) (goesOn : lexer.current.lexeme ≠ .eof) :
    ∃ final, lexer.finish steps = (none, final) ∧
      final.tokens.toList = lexer.tokens.toList ++ tokens ++ [last] := by
  induction steps generalizing lexer tokens with
  | zero => omega
  | succ steps ih =>
      obtain ⟨token, next, front, moved, kept, outcome⟩ :=
        readSignificant_readsTo reads (Nat.le_refl _)
      let moves : Lexer := { next with last := next.current, current := token, ahead := none }
      have advanced : lexer.advance = (.ok token, moves) := by
        simp only [advance, lookahead, if_neg goesOn, unseen, moved, moves]
      rcases outcome with ⟨rfl, rfl⟩ | ⟨more, shorter, tail, rfl, behind⟩
      · exact ⟨moves, by simp only [finish, advanced, reads.2.ends, if_true], kept⟩
      · have few : moves.scan.rest.length < steps := by
          show next.scan.rest.length < steps
          omega
        obtain ⟨final, finished, all⟩ := @ih moves _ behind few rfl more
        refine ⟨final, by simp only [finish, advanced, if_neg more, finished], ?_⟩
        rw [all]
        show next.tokens.toList ++ tail ++ [last] = _
        rw [kept]
        simp

/-- A move over a token either ends the text or leaves less of it. The text ahead can be read to
its end, in the second case if what is left of it can. -/
inductive MovesOver (lexer : Lexer) (token : Token) (next : Lexer) : Prop
  | ended (ends : token.lexeme = .eof) (readable : ∃ lexemes, Lexed lexer.scan.rest lexemes)
  | left (more : token.lexeme ≠ .eof)
      (shorter : next.scan.rest.length < lexer.scan.rest.length)
      (readable : ∀ tail, Lexed next.scan.rest tail → ∃ lexemes, Lexed lexer.scan.rest lexemes)

theorem movesOver_of_read {lexer next : Lexer} {token : Token}
    (read : lexer.read = (.ok token, next)) : lexer.MovesOver token next := by
  obtain ⟨scan, scanned, rfl⟩ := read_ok read
  obtain ⟨size, reading, rest⟩ := Scan.read_ok scanned
  by_cases ends : token.lexeme = .eof
  · rw [ends] at reading
    exact .ended ends ⟨[], .finish (blank_of_eof reading)⟩
  · have shorter := length_behind_lt reading ends
    rw [← rest] at shorter
    refine .left ends shorter fun tail lexed => ⟨token.lexeme :: tail, ?_⟩
    rw [rest] at lexed
    exact .token reading ends lexed

/-- How a lexer comes to a significant token or to an error: over comments, by one read after the
other. -/
inductive Comes : Lexer → Except SyntaxError Token × Lexer → Prop
  | token {lexer next : Lexer} {token : Token} (read : lexer.read = (.ok token, next))
      (significant : token.isSignificant = true) : Comes lexer (.ok token, next)
  | failed {lexer next : Lexer} {error : SyntaxError}
      (read : lexer.read = (.error error, next)) : Comes lexer (.error error, next)
  | comment {lexer next : Lexer} {comment : Token} {outcome : Except SyntaxError Token × Lexer}
      (read : lexer.read = (.ok comment, next)) (isComment : comment.isSignificant = false)
      (onward : Comes next outcome) : Comes lexer outcome

theorem readSignificant_comes {comments : Nat} {lexer : Lexer}
    (enough : lexer.scan.rest.length ≤ comments) :
    lexer.Comes (lexer.readSignificant comments) := by
  induction comments generalizing lexer with
  | zero =>
      rw [readSignificant]
      cases read : lexer.read with
      | mk answer next =>
      cases answer with
      | error error => exact .failed read
      | ok token =>
          cases movesOver_of_read read with
          | ended ends _ => exact .token read (Token.isSignificant_of_eof ends)
          | left _ shorter _ => omega
  | succ comments ih =>
      rw [readSignificant]
      cases read : lexer.read with
      | mk answer next =>
      cases answer with
      | error error => exact .failed read
      | ok token =>
          by_cases significant : token.isSignificant = true
          · simp only [significant, if_true]
            exact .token read significant
          · have isComment : token.isSignificant = false := by simpa using significant
            simp only [isComment, Bool.false_eq_true, if_false]
            cases movesOver_of_read read with
            | ended ends _ => exact absurd (Token.isSignificant_of_eof ends) significant
            | left _ shorter _ => exact .comment read isComment (ih (by omega))

theorem Comes.movesOver {lexer next : Lexer} {token : Token}
    (comes : lexer.Comes (.ok token, next)) : lexer.MovesOver token next := by
  generalize same : (Except.ok token, next) = outcome at comes
  induction comes with
  | token read _ =>
      cases same
      exact movesOver_of_read read
  | failed _ => cases same
  | comment read isComment _ ih =>
      cases movesOver_of_read read with
      | ended ends _ =>
          rw [Token.isSignificant_of_eof ends] at isComment
          cases isComment
      | left _ shorter whole =>
          cases ih same with
          | ended ends readable =>
              obtain ⟨lexemes, lexed⟩ := readable
              exact .ended ends (whole lexemes lexed)
          | left more less onward =>
              refine .left more (Nat.lt_trans less shorter) fun tail lexed => ?_
              obtain ⟨lexemes, between⟩ := onward tail lexed
              exact whole lexemes between

inductive Looks (lexer : Lexer) : Except SyntaxError Token × Lexer → Prop
  | ended (ends : lexer.current.lexeme = .eof) : Looks lexer (.ok lexer.current, lexer)
  | seen {token : Token} (goesOn : lexer.current.lexeme ≠ .eof)
      (seen : lexer.ahead = some token) : Looks lexer (.ok token, lexer)
  | token {token : Token} {next : Lexer} (goesOn : lexer.current.lexeme ≠ .eof)
      (unseen : lexer.ahead = none) (comes : lexer.Comes (.ok token, next)) :
      Looks lexer (.ok token, { next with ahead := some token })
  | failed {error : SyntaxError} {next : Lexer} (goesOn : lexer.current.lexeme ≠ .eof)
      (unseen : lexer.ahead = none) (comes : lexer.Comes (.error error, next)) :
      Looks lexer (.error error, next)

theorem looks (lexer : Lexer) : lexer.Looks lexer.lookahead := by
  unfold lookahead
  by_cases ended : lexer.current.lexeme = .eof
  · rw [if_pos ended]
    exact .ended ended
  · rw [if_neg ended]
    cases seen : lexer.ahead with
    | some token => exact .seen ended seen
    | none =>
        have comes := readSignificant_comes (Nat.le_refl lexer.scan.rest.length)
        cases read : lexer.readSignificant lexer.scan.rest.length with
        | mk answer next =>
        rw [read] at comes
        cases answer with
        | error error => exact .failed ended seen comes
        | ok token => exact .token ended seen comes

theorem lexed_of_finish {lexer final : Lexer} {steps : Nat}
    (finished : lexer.finish steps = (none, final)) (enough : lexer.scan.rest.length < steps)
    (unseen : lexer.ahead = none) (goesOn : lexer.current.lexeme ≠ .eof) :
    ∃ lexemes, Lexed lexer.scan.rest lexemes := by
  induction steps generalizing lexer with
  | zero => omega
  | succ steps ih =>
      simp only [finish, advance] at finished
      have looks := lexer.looks
      generalize lexer.lookahead = outcome at looks finished
      cases looks with
      | ended ends => exact absurd ends goesOn
      | seen _ seen =>
          rw [unseen] at seen
          cases seen
      | failed => cases finished
      | token _ _ comes =>
          cases comes.movesOver with
          | ended _ readable => exact readable
          | left more shorter whole =>
              simp only [if_neg more] at finished
              obtain ⟨tail, behind⟩ := ih finished (by dsimp only; omega) rfl more
              exact whole tail behind

end Lexer

/-- What lexing a source gives for the productions, with the marks around it, if the source can
be read to its end. -/
def Source.significant? (source : Source) : Option (List Lexeme) :=
  match source.lex with
  | (none, lexer) => some (lexer.lexemes.filter fun found => !found.isComment)
  | (some _, _) => none

theorem Source.lex_eq {source : Source} {tokens : List Token} {last : Token}
    (reads : (Scan.ofSource source).ReadsTo source 0 tokens last) :
    ∃ final, source.lex = (none, final) ∧ final.tokens.toList = .sof :: (tokens ++ [last]) := by
  have readsTo : (Lexer.ofSource source).ReadsTo tokens last := ⟨Nat.zero_lt_one, reads⟩
  exact Lexer.finish_readsTo readsTo (Nat.lt_succ_self _) rfl (by rintro ⟨⟩)

theorem Source.readsTo_of_lex {source : Source} {final : Lexer}
    (finished : source.lex = (none, final)) :
    ∃ tokens last, (Scan.ofSource source).ReadsTo source 0 tokens last ∧
      final.tokens.toList = .sof :: (tokens ++ [last]) := by
  obtain ⟨lexemes, lexed⟩ := Lexer.lexed_of_finish finished (Nat.lt_succ_self _) rfl (by rintro ⟨⟩)
  obtain ⟨tokens, last, reads, _⟩ := Scan.readsTo_of_lexed lexed source 0 rfl
  obtain ⟨other, again, all⟩ := Source.lex_eq reads
  rw [finished] at again
  cases again
  exact ⟨tokens, last, reads, all⟩

theorem Source.lex_of_lexed {source : Source} {lexemes : List Lexeme}
    (lexed : Lexed source.chars lexemes) :
    ∃ lexer, source.lex = (none, lexer) ∧ lexer.lexemes = .sof :: (lexemes ++ [.eof]) := by
  obtain ⟨tokens, last, reads, rfl⟩ :=
    @Scan.readsTo_of_lexed _ _ lexed source 0 (.ofSource source) rfl
  obtain ⟨lexer, finished, all⟩ := Source.lex_eq reads
  refine ⟨lexer, finished, ?_⟩
  simp only [Lexer.lexemes, all, List.map_cons, List.map_append, reads.ends]
  rfl

theorem significant_of_lexed {source : Source} {lexemes : List Lexeme}
    (lexed : Lexed source.chars lexemes) :
    source.significant? =
      some (.sof :: ((lexemes.filter fun found => !found.isComment) ++ [.eof])) := by
  obtain ⟨lexer, finished, all⟩ := Source.lex_of_lexed lexed
  rw [Source.significant?, finished]
  simp [all, Lexeme.isComment]

end GraphQL

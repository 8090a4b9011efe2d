import GraphQL.Lexer
import GraphQL.Proofs.Cursor
import GraphQL.Proofs.Lexical.Slice
import GraphQL.Proofs.Tokens

/-!
What a lexer has read, however it is driven. One read skips a gap and takes a slice, for which
it keeps a token, or it fails and only moves on. All tokens come from reads one behind the
other, and nothing is read behind the end of the text.
-/

namespace GraphQL

/-- The scan stands in `source` right behind `behind`. -/
structure Scan.StandsBehind (source : Source) (behind : List Char) (scan : Scan) : Prop where
  whole : source.chars = behind ++ scan.rest
  cursor : scan.cursor = Cursor.start.advance behind

/-- The token was read from `slice`, which stands behind `before` and in front of `after`. -/
structure Token.Covers (token : Token) (before slice after : List Char) : Prop where
  start : token.start = byteLength before
  stop : token.stop = byteLength (before ++ slice)
  startPosition : token.startPosition = Position.start.after before
  endPosition : token.endPosition = Position.start.after (before ++ slice)
  read : (Lexical.lexeme (slice ++ after)).outcome = .ok token.lexeme
  sliced : Lexical.Sliced (slice ++ after) token.lexeme slice after

section
variable {source : Source} {token : Token}

theorem Token.Covers.slice_eq {before slice after : List Char}
    (whole : source.chars = before ++ slice ++ after) (covers : token.Covers before slice after) :
    source.slice? token.start token.stop = some (String.ofList slice) := by
  rw [List.append_assoc] at whole
  rw [covers.start, covers.stop]
  exact Source.slice_between whole

theorem Token.Covers.gap_eq {behind gap slice after : List Char}
    (whole : source.chars = behind ++ gap ++ slice ++ after)
    (covers : token.Covers (behind ++ gap) slice after) :
    source.slice? (byteLength behind) token.start = some (String.ofList gap) := by
  rw [List.append_assoc, List.append_assoc] at whole
  rw [covers.start]
  exact Source.slice_between whole

theorem Token.Covers.comment {before slice after : List Char}
    (covers : token.Covers before slice after) (isComment : token.isSignificant = false) :
    ∃ words, slice = '#' :: words ∧ token.lexeme = .comment (String.ofList words) ∧
      Lexical.OnLine words ∧ Lexical.Halts (fun c => !isLineBreak c) after := by
  have comment : token.lexeme.isComment = true := by
    simpa [Token.isSignificant] using isComment
  have form := covers.sliced.form
  have alone := covers.sliced.alone
  have ends := covers.sliced.ends comment
  generalize token.lexeme = found at comment form alone
  cases found with
  | comment text =>
      obtain rfl : slice = '#' :: text.toList := form
      have plain : ¬BlockString.delimiter <+: '#' :: text.toList := by simp [BlockString.delimiter]
      have onLine := Lexical.lexeme_onLine plain
      rw [alone, Lexical.Reading.done, List.take_length] at onLine
      exact ⟨_, rfl, by rw [String.ofList_toList], (Lexical.onLine_cons.mp onLine).2, ends⟩
  | _ => cases comment

end

namespace Scan.StandsBehind

variable {source : Source} {behind : List Char} {scan : Scan}

theorem ofSource (source : Source) : (Scan.ofSource source).StandsBehind source [] := ⟨rfl, rfl⟩

theorem consume (stands : scan.StandsBehind source behind) (size : Nat) :
    (scan.consume size).StandsBehind source (behind ++ scan.rest.take size) where
  whole := by
    rw [stands.whole, List.append_assoc]
    exact congrArg (behind ++ ·) (List.take_append_drop size scan.rest).symm
  cursor := by
    rw [Cursor.advance_append, ← stands.cursor]
    rfl

theorem offset (stands : scan.StandsBehind source behind) :
    scan.cursor.offset = byteLength behind := by
  rw [stands.cursor, Cursor.offset_advance]
  exact Nat.zero_add _

theorem position (stands : scan.StandsBehind source behind) :
    scan.cursor.position = Position.start.after behind := by
  rw [stands.cursor, Cursor.position_advance _ rfl]
  rfl

theorem skipIgnored (stands : scan.StandsBehind source behind) :
    scan.skipIgnored.StandsBehind source (behind ++ scan.rest.takeWhile isIgnored) := by
  have skipped := stands.consume (scan.rest.takeWhile isIgnored).length
  rwa [Lexical.take_length_takeWhile] at skipped

theorem read (stands : scan.StandsBehind source behind) (prev : Nat) :
    ∃ more, (scan.read source prev).2.StandsBehind source (behind ++ more) := by
  have ended := stands.skipIgnored.consume (Lexical.lexeme scan.skipIgnored.rest).size
  rw [List.append_assoc] at ended
  exact ⟨_, ended⟩

/-- A read that succeeds skips a gap and takes the slice of its token. -/
theorem read_token (stands : scan.StandsBehind source behind) {prev : Nat} {token : Token}
    {next : Scan} (read : scan.read source prev = (.ok token, next)) :
    ∃ gap slice, (∀ c ∈ gap, isIgnored c = true) ∧
      next.StandsBehind source (behind ++ gap ++ slice) ∧
      token.Covers (behind ++ gap) slice next.rest ∧ token.prev = some prev := by
  have begun := stands.skipIgnored
  unfold Scan.read at read
  cases outcome : (Lexical.lexeme scan.skipIgnored.rest).outcome with
  | error fault =>
      simp only [outcome] at read
      cases read
  | ok found =>
      simp only [outcome] at read
      obtain ⟨slice, after, sliced, size⟩ := Lexical.lexeme_sliced
        (show Lexical.lexeme scan.skipIgnored.rest = .done _ found by
          rw [Lexical.Reading.done, ← outcome])
      have ended := begun.consume slice.length
      rw [sliced.whole, List.take_left] at ended
      have left : (scan.skipIgnored.consume slice.length).rest = after := by
        show scan.skipIgnored.rest.drop slice.length = after
        rw [sliced.whole, List.drop_left]
      rw [size] at read
      cases read
      refine ⟨scan.rest.takeWhile isIgnored, slice,
        List.all_eq_true.mp List.all_takeWhile, ended, ⟨begun.offset, ended.offset,
          begun.position, ended.position, ?_, ?_⟩, rfl⟩
      · rw [left, ← sliced.whole]
        exact outcome
      · rw [left, ← sliced.whole]
        exact sliced

end Scan.StandsBehind

/-- The tokens of a lexer that has passed `behind` in `source`. It is clean as long as no read
has failed; a failed read passes some text and keeps nothing. -/
inductive Grown (source : Source) : (clean : Bool) → List Char → List Token → Prop
  | start : Grown source true [] [.sof]
  | token {clean : Bool} {behind gap slice after : List Char} {tokens : List Token} {token : Token}
      (grown : Grown source clean behind tokens)
      (goesOn : ∀ earlier ∈ tokens, earlier.lexeme ≠ .eof)
      (ignored : ∀ c ∈ gap, Scan.isIgnored c = true)
      (whole : source.chars = behind ++ gap ++ slice ++ after)
      (covers : token.Covers (behind ++ gap) slice after)
      (prev : token.prev = some (tokens.length - 1)) :
      Grown source clean (behind ++ gap ++ slice) (tokens ++ [token])
  | fault {clean : Bool} {behind : List Char} {tokens : List Token}
      (grown : Grown source clean behind tokens) (more : List Char) :
      Grown source false (behind ++ more) tokens

namespace Lexer

def Holds (source : Source) (clean : Bool) (lexer : Lexer) : Prop :=
  lexer.source = source ∧ ∃ behind, lexer.scan.StandsBehind source behind ∧
    Grown source clean behind lexer.tokens.toList

def GoesOn (lexer : Lexer) : Prop := ∀ token ∈ lexer.tokens.toList, token.lexeme ≠ .eof

variable {source : Source} {clean : Bool} {lexer : Lexer}

theorem holds_ofSource (source : Source) : (ofSource source).Holds source true :=
  ⟨rfl, [], .ofSource source, .start⟩

/-- What was read last tells whether the end of the text is reached. -/
structure Reads (source : Source) (clean : Bool) (answer : Except SyntaxError Token)
    (next : Lexer) : Prop where
  holds : next.Holds source (clean && answer.isOk)
  ends : ∀ token ∈ next.tokens.toList, token.lexeme = .eof → answer = .ok token

theorem read_reads (holds : lexer.Holds source clean) (goesOn : lexer.GoesOn) :
    Reads source clean lexer.read.1 lexer.read.2 := by
  obtain ⟨rfl, behind, stands, grown⟩ := holds
  unfold read
  cases outcome : lexer.scan.read lexer.source (lexer.tokens.size - 1) with
  | mk answer next =>
  cases answer with
  | error error =>
      obtain ⟨more, moved⟩ := stands.read (lexer.tokens.size - 1)
      rw [outcome] at moved
      refine ⟨⟨rfl, _, moved, ?_⟩, ?_⟩
      · rw [Except.isOk, Except.toBool, Bool.and_false]
        exact grown.fault more
      · exact fun token member ends => absurd ends (goesOn token member)
  | ok token =>
      obtain ⟨gap, slice, ignored, moved, covers, prev⟩ := stands.read_token outcome
      refine ⟨⟨rfl, _, moved, ?_⟩, ?_⟩
      · simp only [Except.isOk, Except.toBool, Bool.and_true, Array.toList_push]
        exact grown.token goesOn ignored moved.whole covers prev
      · intro other member ends
        simp only [Array.toList_push, List.mem_append, List.mem_singleton] at member
        rcases member with old | rfl
        · exact absurd ends (goesOn other old)
        · rfl

theorem Comes.reads {outcome : Except SyntaxError Token × Lexer} (comes : lexer.Comes outcome)
    (holds : lexer.Holds source clean) (goesOn : lexer.GoesOn) :
    Reads source clean outcome.1 outcome.2 := by
  induction comes generalizing clean with
  | token read _ | failed read =>
      have reads := read_reads holds goesOn
      rwa [read] at reads
  | @comment lexer next comment outcome read isComment _ ih =>
      have first := read_reads holds goesOn
      rw [read] at first
      have kept : next.Holds source clean := by
        have holds := first.holds
        rwa [Except.isOk, Except.toBool, Bool.and_true] at holds
      apply ih kept
      intro other member ends
      obtain rfl : comment = other := Except.ok.inj (first.ends other member ends)
      rw [Token.isSignificant_of_eof ends] at isComment
      cases isComment

structure StaysAt (lexer next : Lexer) : Prop where
  current : next.current = lexer.current
  last : next.last = lexer.last
  ahead : next.ahead = lexer.ahead

theorem read_stays (lexer : Lexer) : lexer.StaysAt lexer.read.2 := by
  unfold read
  split <;> exact ⟨rfl, rfl, rfl⟩

theorem Comes.stays {outcome : Except SyntaxError Token × Lexer} (comes : lexer.Comes outcome) :
    lexer.StaysAt outcome.2 := by
  induction comes with
  | @token lexer _ _ read _ | @failed lexer _ _ read =>
      have stays := read_stays lexer
      rwa [read] at stays
  | @comment lexer _ _ _ read _ _ ih =>
      have first := read_stays lexer
      rw [read] at first
      exact ⟨ih.current.trans first.current, ih.last.trans first.last, ih.ahead.trans first.ahead⟩

inductive Call where
  | advance
  | lookahead
deriving DecidableEq, Repr

def call (lexer : Lexer) : Call → Except SyntaxError Token × Lexer
  | .advance => lexer.advance
  | .lookahead => lexer.lookahead

def run (lexer : Lexer) : List Call → List (Except SyntaxError Token) × Lexer
  | [] => ([], lexer)
  | first :: rest =>
      let (answer, next) := lexer.call first
      let (answers, last) := next.run rest
      (answer :: answers, last)

/-- Between calls, the end of the text is either not read or in view. -/
structure Reached (source : Source) (clean : Bool) (lexer : Lexer) : Prop where
  holds : lexer.Holds source clean
  ended : lexer.GoesOn ∨ lexer.current.lexeme = .eof ∨
    ∃ token, lexer.ahead = some token ∧ token.lexeme = .eof

theorem reached_ofSource (source : Source) : (ofSource source).Reached source true where
  holds := holds_ofSource source
  ended := by
    refine .inl fun token member => ?_
    rw [List.mem_singleton.mp member]
    rintro ⟨⟩

theorem lookahead_reached (reached : lexer.Reached source clean) :
    lexer.lookahead.2.Reached source (clean && lexer.lookahead.1.isOk) := by
  have unread (goesOn : lexer.current.lexeme ≠ .eof) (unseen : lexer.ahead = none) :
      lexer.GoesOn := by
    rcases reached.ended with more | isEnd | ⟨token, seen, _⟩
    · exact more
    · exact absurd isEnd goesOn
    · rw [unseen] at seen
      cases seen
  have looks := lexer.looks
  generalize lexer.lookahead = outcome at looks
  cases looks with
  | ended ends => simpa [Except.isOk, Except.toBool] using reached
  | seen goesOn seen => simpa [Except.isOk, Except.toBool] using reached
  | failed goesOn unseen comes =>
      have reads := comes.reads reached.holds (unread goesOn unseen)
      refine ⟨reads.holds, .inl fun token member ends => ?_⟩
      cases reads.ends token member ends
  | @token token next goesOn unseen comes =>
      have reads := comes.reads reached.holds (unread goesOn unseen)
      refine ⟨reads.holds, ?_⟩
      by_cases ends : token.lexeme = .eof
      · exact .inr (.inr ⟨token, rfl, ends⟩)
      · refine .inl fun other member same => ends ?_
        obtain rfl : token = other := Except.ok.inj (reads.ends other member same)
        exact same

theorem lookahead_shows {token : Token} {next : Lexer}
    (shown : lexer.lookahead = (.ok token, next)) :
    token.lexeme = .eof ∨ (next.current.lexeme ≠ .eof ∧ next.ahead = some token) := by
  have looks := lexer.looks
  rw [shown] at looks
  cases looks with
  | ended ends => exact .inl ends
  | seen goesOn seen => exact .inr ⟨goesOn, seen⟩
  | token goesOn unseen comes =>
      rw [← comes.stays.current] at goesOn
      exact .inr ⟨goesOn, rfl⟩

theorem advance_reached (reached : lexer.Reached source clean) :
    lexer.advance.2.Reached source (clean && lexer.advance.1.isOk) := by
  have shows := lookahead_reached reached
  unfold advance
  cases outcome : lexer.lookahead with
  | mk answer next =>
  rw [outcome] at shows
  cases answer with
  | error error => exact shows
  | ok token =>
      refine ⟨shows.holds, ?_⟩
      rcases lookahead_shows outcome with ends | ⟨notEnded, seen⟩
      · exact .inr (.inl ends)
      rcases shows.ended with more | ended | ⟨other, same, ends⟩
      · exact .inl more
      · exact absurd ended notEnded
      · rw [seen] at same
        cases same
        exact .inr (.inl ends)

theorem call_reached (reached : lexer.Reached source clean) (call : Call) :
    (lexer.call call).2.Reached source (clean && (lexer.call call).1.isOk) := by
  cases call with
  | advance => exact advance_reached reached
  | lookahead => exact lookahead_reached reached

/-- What holds between any two calls. -/
theorem run_reached (reached : lexer.Reached source clean) (calls : List Call) :
    (lexer.run calls).2.Reached source (clean && (lexer.run calls).1.all Except.isOk) := by
  induction calls generalizing lexer clean with
  | nil => simpa [run] using reached
  | cons first rest ih =>
      have last := ih (call_reached reached first)
      rwa [Bool.and_assoc] at last

end Lexer

end GraphQL

import GraphQL.Proofs.Interleaving
import GraphQL.Proofs.Lexical.Unclosed
import GraphQL.Proofs.Slices
import GraphQL.Proofs.Upcoming

/-!
Strings that are not closed, and the note that tells where they started. Whatever a lexer has been
asked before, it meets such a string behind ignored characters and comments only, and its error
stands where the string breaks off. The note names the opening quote, unless the string dangles.
-/

namespace GraphQL

open Lexical (BreaksOff Dangles Halts OnLine)

/-- Ignored characters and comments in front of `rest`. A comment goes to the end of its line. -/
inductive Scan.Skips : (skipped rest : List Char) → Prop
  | done {rest : List Char} : Skips [] rest
  | ignored {c : Char} {skipped rest : List Char} (isIgnored : isIgnored c = true)
      (behind : Skips skipped rest) : Skips (c :: skipped) rest
  | comment {words skipped rest : List Char} (sameLine : OnLine words)
      (ends : Halts (fun c => !isLineBreak c) (skipped ++ rest)) (behind : Skips skipped rest) :
      Skips ('#' :: (words ++ skipped)) rest

/-- The error is that `literal`, which stands behind `before`, breaks off. Its note has the position
of the opening quote, or of the backslash with which the literal dangles. -/
structure SyntaxError.Traces (error : SyntaxError) (source : Source) (before literal : List Char) :
    Prop where
  offset : error.offset = byteLength (before ++ literal)
  note : ∃ position, error.notes = [.general "String started here" (some position)] ∧
    (position = source.locationOf (byteLength before) ↔ ¬Dangles literal) ∧
    (Dangles literal → position = source.locationOf (byteLength (before ++ literal) - 1))

theorem Position.Before.ne {a b : Position} (before : a.Before b) : a ≠ b := by
  rintro rfl
  unfold Before at before
  omega

theorem Source.locationOf_behind_quote {source : Source} {before inner after : List Char}
    (whole : source.chars = before ++ '"' :: (inner ++ after)) :
    source.locationOf (byteLength before) ≠
      source.locationOf (byteLength (before ++ '"' :: inner)) := by
  have apart : ¬PartsReturn before ('"' :: inner) := by rintro ⟨_, ⟨⟩⟩
  have behind : source.chars = (before ++ '"' :: inner) ++ after := by rw [whole]; simp
  rw [Source.locationOf_byteLength whole, Source.locationOf_byteLength behind,
    Position.after_append apart]
  exact (Position.before_after _ (List.cons_ne_nil _ _)).ne

namespace Scan

variable {source : Source} {behind : List Char} {scan next : Scan} {error : SyntaxError}

theorem Skips.behindGap {gap skipped rest : List Char}
    (ignored : ∀ c ∈ gap, isIgnored c = true) (skips : Skips skipped rest) :
    Skips (gap ++ skipped) rest := by
  induction gap with
  | nil => exact skips
  | cons c gap ih =>
      obtain ⟨first, others⟩ := List.forall_mem_cons.mp ignored
      exact .ignored first (ih others)

theorem StandsBehind.traces_of_read (stands : scan.StandsBehind source behind) {prev : Nat}
    (failed : scan.read source prev = (.error error, next))
    (kind : error.kind = .unterminatedString) :
    ∃ gap literal after, scan.rest = gap ++ (literal ++ after) ∧
      (∀ c ∈ gap, isIgnored c = true) ∧ BreaksOff literal after ∧
      error.Traces source (behind ++ gap) literal := by
  obtain ⟨rfl, fault, outcome, rfl⟩ := read_failed failed
  rw [Lexical.Fault.error_kind] at kind
  obtain ⟨literal, after, ahead, breaksOff, stops⟩ := Lexical.lexeme_breaksOff outcome kind
  generalize (Lexical.lexeme scan.skipIgnored.rest).size = size at stops ⊢
  have rest : scan.rest = scan.rest.takeWhile isIgnored ++ (literal ++ after) := by
    rw [← ahead, rest_skipIgnored, List.takeWhile_append_dropWhile]
  refine ⟨_, literal, after, rest, List.all_eq_true.mp List.all_takeWhile, breaksOff, ?_⟩
  have begun := stands.skipIgnored
  have ended := begun.consume size
  have whole := begun.whole
  rw [ahead] at ended whole
  have start := begun.position
  have offset := ended.offset
  cases stops with
  | whole broken taken =>
      subst taken
      rw [List.take_left] at offset
      refine ⟨offset, _, rfl, ?_, fun dangles => absurd dangles broken⟩
      rw [start, Source.locationOf_byteLength whole]
      exact iff_of_true rfl broken
  | dangling dangles taken =>
      -- The reading stops in front of the backslash, and the error stands behind it.
      have broken := dangles
      obtain ⟨inner, value, rfl, quotes⟩ := dangles
      obtain rfl : size = ('"' :: inner).length := by
        simpa only [List.length_cons, List.length_append, List.length_nil, Nat.zero_add,
          Nat.add_right_cancel_iff] using taken
      have split : '"' :: (inner ++ ['\\']) ++ after = '"' :: inner ++ '\\' :: after := by simp
      rw [split] at whole
      rw [split, List.take_left] at offset
      have last : byteLength (behind ++ scan.rest.takeWhile isIgnored ++ '"' :: (inner ++ ['\\'])) =
          byteLength (behind ++ scan.rest.takeWhile isIgnored ++ '"' :: inner) + 1 := by
        rw [← List.cons_append, ← List.append_assoc, byteLength_append]
        rfl
      refine ⟨by rw [last, ← offset]; rfl, _, rfl, ?_, fun _ => ?_⟩
      · rw [offset]
        exact iff_of_false (Source.locationOf_behind_quote whole).symm (not_not_intro broken)
      · rw [last, offset]
        rfl

end Scan

namespace Lexer

variable {source : Source} {behind : List Char} {lexer next : Lexer} {error : SyntaxError}

theorem Comes.traces {outcome : Except SyntaxError Token × Lexer} (comes : lexer.Comes outcome)
    (reads : lexer.source = source) (stands : lexer.scan.StandsBehind source behind)
    (failed : outcome.1 = .error error) (kind : error.kind = .unterminatedString) :
    ∃ skipped literal after, lexer.scan.rest = skipped ++ (literal ++ after) ∧
      Scan.Skips skipped (literal ++ after) ∧ BreaksOff literal after ∧
      error.Traces source (behind ++ skipped) literal := by
  induction comes generalizing behind with
  | token => cases failed
  | @failed lexer next other read =>
      obtain rfl : other = error := Except.error.inj failed
      cases scanned : lexer.scan.read lexer.source (lexer.tokens.size - 1) with
      | mk answer scan =>
      rw [Lexer.read, scanned] at read
      cases answer with
      | ok token => cases read
      | error found =>
          cases read
          rw [reads] at scanned
          obtain ⟨gap, literal, after, ahead, ignored, breaksOff, traces⟩ :=
            stands.traces_of_read scanned kind
          refine ⟨gap, literal, after, ahead, ?_, breaksOff, traces⟩
          rw [← List.append_nil gap]
          exact Scan.Skips.done.behindGap ignored
  | @comment lexer _ _ _ read isComment _ ih =>
      obtain ⟨scan, scanned, rfl⟩ := read_ok read
      rw [reads] at scanned
      obtain ⟨gap, slice, ignored, moved, covers, _⟩ := stands.read_token scanned
      obtain ⟨words, rfl, _, sameLine, ends⟩ := covers.comment isComment
      obtain ⟨skipped, literal, after, ahead, skips, breaksOff, traces⟩ := ih reads moved failed
      have onward : Scan.Skips ('#' :: (words ++ skipped)) (literal ++ after) :=
        .comment sameLine (by rwa [← ahead]) skips
      refine ⟨gap ++ '#' :: (words ++ skipped), literal, after, ?_, onward.behindGap ignored,
        breaksOff, by simpa using traces⟩
      have whole := stands.whole.symm.trans moved.whole
      rw [List.append_assoc, List.append_assoc] at whole
      rw [List.append_cancel_left whole, ahead]
      simp

/-- However a lexer was used before: if it fails at an unterminated string, then behind all that it
has passed stand ignored characters and comments, and behind those a string that breaks off there.
The error stands where that string ends. Its note tells that the string started at its opening
quote, exactly unless the string dangles: then it names the backslash at the end of the text. -/
theorem unterminated_traced (source : Source) (calls : List Call) (call : Call)
    (failed : (((ofSource source).run calls).2.call call).1 = .error error)
    (kind : error.kind = .unterminatedString) :
    ∃ passed skipped literal after,
      source.chars = passed ++ skipped ++ literal ++ after ∧
      ((ofSource source).run calls).2.scan.cursor.offset = byteLength passed ∧
      Scan.Skips skipped (literal ++ after) ∧ BreaksOff literal after ∧
      error.Traces source (passed ++ skipped) literal := by
  obtain ⟨reads, passed, stands, _⟩ := (run_reached (reached_ofSource source) calls).holds
  generalize ((ofSource source).run calls).2 = lexer at *
  rw [call_answers] at failed
  cases moved : lexer.advance with
  | mk answer next =>
  obtain rfl : answer = .error error := by rw [← failed, moved]
  have looks := lexer.looks
  rw [failed_of_advance moved] at looks
  cases looks with
  | failed _ _ comes =>
      obtain ⟨skipped, literal, after, ahead, skips, breaksOff, traces⟩ :=
        comes.traces reads stands rfl kind
      refine ⟨passed, skipped, literal, after, ?_, stands.offset, skips, breaksOff, traces⟩
      rw [stands.whole, ahead]
      simp

/-- A block string behind a comment, which shows a quote of its own. -/
theorem unterminated_traced_block :
    let source := Source.ofBody "a # \"\n \"\"\"b\n"
    let lexer := ((ofSource source).run [.advance]).2
    ∃ error, (lexer.call .lookahead).1 = .error error ∧ error.kind = .unterminatedString ∧
      error.notes = [.general "String started here" (some ⟨2, 2⟩)] ∧
      ∃ passed skipped literal after,
        source.chars = passed ++ skipped ++ literal ++ after ∧
        lexer.scan.cursor.offset = byteLength passed ∧
        Scan.Skips skipped (literal ++ after) ∧ BreaksOff literal after ∧
        error.Traces source (passed ++ skipped) literal := by
  intro source lexer
  have failed : (lexer.call .lookahead).1 = .error (.inSource source 12 .unterminatedString
      "Unterminated string." [.general "String started here" (some ⟨2, 2⟩)]) := by
    decide +kernel
  exact ⟨_, failed, rfl, rfl, unterminated_traced source [.advance] .lookahead failed rfl⟩

/-- A string that dangles: no note has the position of its quote, with which the text begins. -/
theorem unterminated_dangling :
    let source := Source.ofBody "\"\\"
    ∃ error, ((ofSource source).call .advance).1 = .error error ∧
      error.kind = .unterminatedString ∧ BreaksOff source.chars [] ∧
      error.notes = [.general "String started here" (some ⟨1, 2⟩)] ∧
      ∀ note ∈ error.notes, note.position ≠ some (source.locationOf 0) := by
  intro source
  have failed : ((ofSource source).call .advance).1 = .error (.inSource source 2
      .unterminatedString "Unterminated string."
      [.general "String started here" (some ⟨1, 2⟩)]) := by
    decide +kernel
  exact ⟨_, failed, rfl, .escape ⟨[], [], by decide, .nil⟩, rfl, by decide⟩

end Lexer

end GraphQL

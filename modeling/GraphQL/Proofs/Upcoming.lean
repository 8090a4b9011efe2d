import GraphQL.Proofs.Interleaving
import GraphQL.Proofs.Slices

/-!
What a lexer has in front of it is a stream, whether it has looked ahead or not. A move takes the
first item of the stream, a token or an error, and looking ahead takes errors only.
-/

namespace GraphQL

open Lexical (lexeme)

def SyntaxError.IsLexical (error : SyntaxError) : Prop :=
  ∃ fault : Lexical.Fault, error.kind = fault.kind

namespace Scan

variable {source : Source} {prev : Nat} {scan next : Scan} {error : SyntaxError}

theorem skipIgnored_skipIgnored (scan : Scan) :
    scan.skipIgnored.skipIgnored = scan.skipIgnored := by
  have none : scan.skipIgnored.rest.takeWhile isIgnored = [] := by
    rw [rest_skipIgnored]
    exact Lexical.takeWhile_halts (List.forall_mem_nil _) (Lexical.halts_dropWhile _)
  rw [skipIgnored, none]
  rfl

theorem read_failed (failed : scan.read source prev = (.error error, next)) :
    next = scan.skipIgnored.consume (lexeme scan.skipIgnored.rest).size ∧
      ∃ fault, (lexeme scan.skipIgnored.rest).outcome = .error fault ∧
        error = fault.error source scan.skipIgnored.cursor next.cursor := by
  unfold Scan.read at failed
  cases outcome : (lexeme scan.skipIgnored.rest).outcome with
  | ok found =>
      simp only [outcome] at failed
      cases failed
  | error fault =>
      simp only [outcome] at failed
      cases failed
      exact ⟨rfl, fault, rfl, rfl⟩

theorem read_stuck (failed : scan.read source prev = (.error error, next))
    (stuck : ¬next.rest.length < scan.skipIgnored.rest.length) :
    next.read source prev = (.error error, next) ∧ next.skipIgnored = next := by
  have still : next = scan.skipIgnored := by
    obtain ⟨same, fault, outcome, _⟩ := read_failed failed
    cases ahead : scan.skipIgnored.rest with
    | nil =>
        rw [ahead] at outcome
        cases outcome
    | cons c rest =>
        have none : (lexeme scan.skipIgnored.rest).size = 0 := by
          rw [same] at stuck
          simp only [consume, List.length_drop, ahead, List.length_cons] at stuck ⊢
          omega
        rw [same, none]
        rfl
  have settled : next.skipIgnored = next := by rw [still, skipIgnored_skipIgnored]
  refine ⟨?_, settled⟩
  have again : next.read source prev = scan.read source prev := by
    unfold Scan.read
    rw [settled, still]
  rw [again, failed]

end Scan

namespace TokenStream

variable {source : Source}

theorem ofScan_empty {prev : Nat} {scan : Scan} (empty : scan.rest.length = 0) (reads : Nat) :
    ofScan source prev scan reads = ⟨[], (scan.read source prev).1⟩ := by
  have reading : lexeme (scan.rest.dropWhile Scan.isIgnored) = .done 0 .eof := by
    rw [List.length_eq_zero_iff.mp empty]
    rfl
  obtain ⟨token, next, read, ends, _⟩ := Scan.read_done source prev reading
  cases reads with
  | zero => rfl
  | succ reads => simp [ofScan, read, ends]

theorem ofScan_enough {reads more prev : Nat} {scan : Scan} (enough : scan.rest.length ≤ reads)
    (also : scan.rest.length ≤ more) :
    ofScan source prev scan reads = ofScan source prev scan more := by
  induction reads generalizing more prev scan with
  | zero =>
      have empty := Nat.le_zero.mp enough
      rw [ofScan_empty empty, ofScan_empty empty]
  | succ reads ih =>
      cases more with
      | zero =>
          have empty := Nat.le_zero.mp also
          rw [ofScan_empty empty, ofScan_empty empty]
      | succ more =>
          rw [ofScan, ofScan]
          cases read : scan.read source prev with
          | mk answer next =>
          cases answer with
          | ok token =>
              dsimp only
              split
              · rfl
              · rename_i goesOn
                have shorter := Scan.read_shorter read goesOn
                rw [ih (by omega) (by omega : _ ≤ more)]
          | error error =>
              dsimp only
              split
              · rename_i shorter
                have bound := dropWhile_length_le scan.rest
                rw [← Scan.rest_skipIgnored] at bound
                rw [ih (by omega) (by omega : _ ≤ more)]
              · rfl

theorem ofScan_stuck {prev : Nat} {scan : Scan} {error : SyntaxError}
    (stuck : scan.read source prev = (.error error, scan)) (settled : scan.skipIgnored = scan)
    (reads : Nat) : ofScan source prev scan reads = ⟨[], .error error⟩ := by
  cases reads with
  | zero => rw [ofScan, stuck]
  | succ reads => simp [ofScan, stuck, settled]

/-- The stream that a token is in front of; behind the end there is only the end. -/
def ledBy (token : Token) (behind : TokenStream) : TokenStream :=
  if token.lexeme = .eof then ⟨[], .ok token⟩ else behind.cons (.ok token)

theorem significant_token {token : Token} (stream : TokenStream) :
    (stream.cons (.ok token)).significant =
      if token.isSignificant then stream.significant.cons (.ok token)
      else stream.significant := by
  cases shown : token.isSignificant <;> simp [significant, cons, isSignificant, shown]

theorem significant_error {error : SyntaxError} (stream : TokenStream) :
    (stream.cons (.error error)).significant = stream.significant.cons (.error error) := by
  have shown : isSignificant (.error error) = true := rfl
  simp only [significant, cons, List.filter_cons_of_pos shown]

end TokenStream

namespace Lexer

open TokenStream (ledBy)

variable {lexer next : Lexer} {token : Token} {error : SyntaxError}

def unread (lexer : Lexer) : TokenStream :=
  (TokenStream.ofScan lexer.source (lexer.tokens.size - 1) lexer.scan
    lexer.scan.rest.length).significant

/-- All that a lexer can still come to. -/
def upcoming (lexer : Lexer) : TokenStream :=
  if lexer.current.lexeme = .eof then ⟨[], .ok lexer.current⟩
  else
    match lexer.ahead with
    | some token => ledBy token lexer.unread
    | none => lexer.unread

/-- An answer takes the front of a stream, and leaves what is behind it. -/
inductive Takes (stream behind : TokenStream) : Except SyntaxError Token → Prop
  | token {token : Token} (same : stream = ledBy token behind) : Takes stream behind (.ok token)
  | error {error : SyntaxError} (same : stream.next = (.error error, behind)) :
      Takes stream behind (.error error)

theorem unread_of_read (some' : 0 < lexer.tokens.size) (read : lexer.read = (.ok token, next)) :
    lexer.unread = if token.isSignificant then ledBy token next.unread else next.unread := by
  obtain ⟨scan, scanned, rfl⟩ := read_ok read
  have place : (lexer.tokens.push token).size - 1 = lexer.tokens.size - 1 + 1 := by
    rw [Array.size_push]
    omega
  by_cases ends : token.lexeme = .eof
  · rw [if_pos (Token.isSignificant_of_eof ends), ledBy, if_pos ends, unread]
    cases lexer.scan.rest.length <;> simp [TokenStream.ofScan, scanned, ends] <;> rfl
  · have shorter := Scan.read_shorter scanned ends
    have cons : TokenStream.ofScan lexer.source (lexer.tokens.size - 1) lexer.scan
        lexer.scan.rest.length =
          (TokenStream.ofScan lexer.source (lexer.tokens.size - 1 + 1) scan
            scan.rest.length).cons (.ok token) := by
      cases count : lexer.scan.rest.length with
      | zero => omega
      | succ count =>
          simp only [TokenStream.ofScan, scanned, if_neg ends]
          rw [TokenStream.ofScan_enough (by omega) (Nat.le_refl _)]
    rw [unread, cons, TokenStream.significant_token, ledBy, if_neg ends, unread]
    dsimp only
    rw [place]

theorem unread_of_failed (failed : lexer.read = (.error error, next)) :
    lexer.unread.next = (.error error, next.unread) := by
  unfold Lexer.read at failed
  cases scanned : lexer.scan.read lexer.source (lexer.tokens.size - 1) with
  | mk answer scan =>
  rw [scanned] at failed
  cases answer with
  | ok found => cases failed
  | error found =>
  cases failed
  unfold unread
  cases count : lexer.scan.rest.length with
  | zero =>
      have reading : lexeme (lexer.scan.rest.dropWhile Scan.isIgnored) = .done 0 .eof := by
        rw [List.length_eq_zero_iff.mp count]
        rfl
      obtain ⟨token, _, read, _⟩ := Scan.read_done lexer.source (lexer.tokens.size - 1) reading
      rw [scanned] at read
      cases read
  | succ count =>
      rw [TokenStream.ofScan, scanned]
      dsimp only
      split
      · rename_i shorter
        have bound := dropWhile_length_le lexer.scan.rest
        rw [← Scan.rest_skipIgnored] at bound
        rw [TokenStream.significant_error,
          TokenStream.ofScan_enough (by omega) (Nat.le_refl scan.rest.length)]
        rfl
      · rename_i stuck
        obtain ⟨again, settled⟩ := Scan.read_stuck scanned stuck
        rw [TokenStream.ofScan_stuck again settled]
        rfl

theorem Comes.takes {outcome : Except SyntaxError Token × Lexer} (comes : lexer.Comes outcome)
    (some' : 0 < lexer.tokens.size) : Takes lexer.unread outcome.2.unread outcome.1 := by
  induction comes with
  | token read significant =>
      have unread := unread_of_read some' read
      rw [if_pos significant] at unread
      exact .token unread
  | failed read => exact .error (unread_of_failed read)
  | comment read isComment _ ih =>
      have unread := unread_of_read some' read
      rw [isComment, if_neg Bool.false_ne_true] at unread
      rw [unread]
      apply ih
      obtain ⟨scan, _, rfl⟩ := read_ok read
      simp

theorem upcoming_ended (ended : lexer.current.lexeme = .eof) :
    lexer.upcoming = ⟨[], .ok lexer.current⟩ := if_pos ended

theorem upcoming_of_shown (some' : 0 < lexer.tokens.size)
    (shown : lexer.lookahead = (.ok token, next)) :
    lexer.upcoming = ledBy token next.unread ∧ next.upcoming = lexer.upcoming := by
  have looks := lexer.looks
  rw [shown] at looks
  cases looks with
  | ended ends => exact ⟨by rw [upcoming_ended ends, ledBy, if_pos ends], rfl⟩
  | seen goesOn seen => exact ⟨by simp only [upcoming, if_neg goesOn, seen], rfl⟩
  | @token token next goesOn unseen comes =>
      cases comes.takes some' with
      | token same =>
          have still : next.current.lexeme ≠ .eof := by rwa [comes.stays.current]
          have front : lexer.upcoming = ledBy token next.unread := by
            simp only [upcoming, if_neg goesOn, unseen, same]
          refine ⟨front, ?_⟩
          rw [front]
          simp only [upcoming, if_neg still]
          rfl

theorem upcoming_of_failed (some' : 0 < lexer.tokens.size)
    (failed : lexer.lookahead = (.error error, next)) :
    lexer.upcoming.next = (.error error, next.upcoming) := by
  have looks := lexer.looks
  rw [failed] at looks
  cases looks with
  | failed goesOn unseen comes =>
      cases comes.takes some' with
      | error same =>
          have still : next.current.lexeme ≠ .eof := by rwa [comes.stays.current]
          have none : next.ahead = none := comes.stays.ahead.trans unseen
          simp only [upcoming, if_neg goesOn, if_neg still, unseen, none]
          exact same

/-- A move takes what is at the front. -/
theorem upcoming_of_advance (some' : 0 < lexer.tokens.size) :
    lexer.upcoming.next = (lexer.advance.1, lexer.advance.2.upcoming) := by
  cases shown : lexer.lookahead with
  | mk answer next =>
  cases answer with
  | error error =>
      rw [advance_of_failed shown]
      exact upcoming_of_failed some' shown
  | ok token =>
      rw [advance_of_shown shown, (upcoming_of_shown some' shown).1]
      unfold ledBy upcoming
      by_cases ends : token.lexeme = .eof
      · simp only [if_pos ends]
        rfl
      · simp only [if_neg ends]
        rfl

/-! Errors of a lexer. -/

theorem isLexical_of_read (failed : lexer.read = (.error error, next)) : error.IsLexical := by
  unfold Lexer.read at failed
  cases outcome : lexer.scan.read lexer.source (lexer.tokens.size - 1) with
  | mk answer scan =>
  rw [outcome] at failed
  cases answer with
  | ok token => cases failed
  | error found =>
      cases failed
      obtain ⟨_, fault, _, rfl⟩ := Scan.read_failed outcome
      exact ⟨fault, Lexical.Fault.error_kind _ _ _ _⟩

theorem Comes.isLexical (comes : lexer.Comes (.error error, next)) : error.IsLexical := by
  generalize same : (Except.error error, next) = outcome at comes
  induction comes with
  | token _ _ => cases same
  | failed read =>
      cases same
      exact isLexical_of_read read
  | comment _ _ _ ih => exact ih same

theorem isLexical_of_lookahead (failed : lexer.lookahead = (.error error, next)) :
    error.IsLexical := by
  have looks := lexer.looks
  rw [failed] at looks
  cases looks with
  | failed _ _ comes => exact comes.isLexical

theorem Leads.isLexical {final : Lexer} (leads : Leads final lexer (some error)) :
    error.IsLexical := by
  generalize same : some error = failure at leads
  induction leads with
  | ended _ _ => cases same
  | fails failed =>
      cases same
      exact isLexical_of_lookahead (failed_of_advance failed)
  | moves _ _ _ ih => exact ih same

end Lexer

/-- The stream of a source is what a lexer has in front of it at the start. -/
theorem TokenStream.significant_ofSource (source : Source) :
    (TokenStream.ofSource source).significant = (Lexer.ofSource source).upcoming := rfl

end GraphQL

import GraphQL.Proofs.Blame
import GraphQL.Proofs.Following
import GraphQL.Proofs.Tracking

/-!
What errors of parsing are about. A parser stands at a significant token of its source, and what it
complains about is that token, one that it has passed or the next one. The complaint tells the token
that it is about. All other errors of parsing are those of reading.
-/

namespace GraphQL

open GraphQL.Parser (Follows State isDescription)

/-- Whether a complaint fits the significant token at a place of the source. It names that token. A
variable is told by the name right behind its sign, and a string is only taken for the name of an
enum value where its description stands right in front of it. -/
def Complaint.FitsAt (source : Source) (place : Nat) (token : Token) : Complaint → Prop
  | unexpected found | expected _ found | expectedKeyword _ found => found = token.lexeme
  | constVariable name =>
      token.lexeme = .punctuator .dollar ∧
        ∃ next, source.significantAt (place + 1) = some next ∧ next.lexeme = .name name
  | reservedFragmentName found => found = token.lexeme ∧ found = .name "on"
  | reservedEnumValue found =>
      found = token.lexeme ∧ found.text ∈ ["true", "false", "null"] ∧
        (isDescription token = true →
          ∃ before, source.significantAt (place - 1) = some before ∧ isDescription before = true)
  | misplacedDescription => isDescription token = true
  | tooManyTokens _ | tooDeep _ => True

/-- What an error of parsing is about: it is the error of reading the source, or a complaint that
fits a token of it. The mark in front of the text, at the first place, is not complained about. -/
inductive SyntaxError.IsAbout (source : Source) : SyntaxError → Prop
  | read {error : SyntaxError} (met : source.lex.1 = some error) : IsAbout source error
  | complaint {place : Nat} {token : Token} {complaint : Complaint} (inside : 0 < place)
      (here : source.significantAt place = some token) (fits : complaint.FitsAt source place token) :
      IsAbout source (complaint.error source token)

/-! Tokens of a source. -/

theorem Lexer.Leads.grown {source : Source} {final lexer : Lexer} {failure : Option SyntaxError}
    (leads : Leads final lexer failure) {clean : Bool} (reached : lexer.Reached source clean) :
    ∃ clean behind, Grown source clean behind final.tokens.toList := by
  induction leads generalizing clean with
  | ended _ same =>
      obtain ⟨_, behind, _, grown⟩ := reached.holds
      rw [same]
      exact ⟨_, behind, grown⟩
  | fails failed =>
      have onward := Lexer.advance_reached reached
      rw [failed] at onward
      obtain ⟨_, behind, _, grown⟩ := onward.holds
      exact ⟨_, behind, grown⟩
  | moves _ moved _ ih =>
      have onward := Lexer.advance_reached reached
      rw [moved] at onward
      exact ih onward

namespace Grown

variable {source : Source} {clean : Bool} {behind : List Char} {tokens : List Token}

theorem start_lt (grown : Grown source clean behind tokens) {token : Token}
    (member : token ∈ tokens) (isRead : token.lexeme ≠ .sof) (goesOn : token.lexeme ≠ .eof) :
    token.start < byteLength behind := by
  induction grown with
  | start =>
      rw [List.mem_singleton.mp member] at isRead
      exact absurd rfl isRead
  | @token _ behind gap slice _ _ _ _ _ _ _ covers _ ih =>
      rw [byteLength_append]
      rcases List.mem_append.mp member with old | new
      · have passed := ih old
        rw [byteLength_append]
        omega
      · obtain rfl := List.mem_singleton.mp new
        obtain ⟨c, others, same, _⟩ := covers.sliced.begins goesOn
        have positive := byteLength_pos (same ▸ List.cons_ne_nil c others)
        rw [covers.start]
        omega
  | fault _ more ih =>
      have passed := ih member
      rw [byteLength_append]
      omega

theorem eq_of_start (grown : Grown source clean behind tokens) {a b : Token} (isOne : a ∈ tokens)
    (isOther : b ∈ tokens) (isRead : a.lexeme ≠ .sof) (alsoRead : b.lexeme ≠ .sof)
    (same : a.start = b.start) : a = b := by
  induction grown with
  | start =>
      rw [List.mem_singleton.mp isOne] at isRead
      exact absurd rfl isRead
  | @token _ behind gap slice _ tokens token grown goesOn _ _ covers _ ih =>
      have later {old : Token} (member : old ∈ tokens) (isRead : old.lexeme ≠ .sof) :
          old.start < token.start := by
        have passed := grown.start_lt member isRead (goesOn old member)
        rw [covers.start, byteLength_append]
        omega
      rcases List.mem_append.mp isOne with old | new <;>
        rcases List.mem_append.mp isOther with old' | new'
      · exact ih old old'
      · rw [List.mem_singleton.mp new'] at same
        exact absurd same (Nat.ne_of_lt (later old isRead))
      · rw [List.mem_singleton.mp new] at same
        exact absurd same.symm (Nat.ne_of_lt (later old' alsoRead))
      · rw [List.mem_singleton.mp new, List.mem_singleton.mp new']
  | fault _ _ ih => exact ih isOne isOther

end Grown

namespace Source

variable {source : Source} {place : Nat} {token : Token} {error : SyntaxError}

theorem grown (source : Source) :
    ∃ clean behind, Grown source clean behind source.lex.2.tokens.toList :=
  (Lexer.leads_of_source source).grown (Lexer.reached_ofSource source)

theorem mem_of_significantAt (here : source.significantAt place = some token) :
    token ∈ source.lex.2.tokens.toList ∧ token.isSignificant = true := by
  suffices member : token ∈ source.lex.2.significant from List.mem_filter.mp member
  unfold significantAt at here
  split at here
  · rename_i _ found
    cases here
    exact List.mem_of_getElem? found
  · exact List.mem_of_getLast? here
  · cases here

theorem significantAt_zero (source : Source) : source.significantAt 0 = some .sof :=
  (Lexer.abreast_ofSource source).shown

theorem ne_sof_of_significantAt (inside : 0 < place)
    (here : source.significantAt place = some token) : token.lexeme ≠ .sof := by
  obtain ⟨_, _, grown⟩ := source.grown
  obtain ⟨others, split, isRead⟩ := grown.begins
  have front : source.lex.2.significant = .sof :: others.filter Token.isSignificant := by
    rw [Lexer.significant, split]
    rfl
  suffices member : token ∈ others.filter Token.isSignificant from
    isRead token (List.mem_filter.mp member).1
  obtain ⟨place, rfl⟩ : ∃ before, place = before + 1 := ⟨place - 1, by omega⟩
  unfold significantAt at here
  split at here
  · rename_i _ found
    cases here
    rw [front, List.getElem?_cons_succ] at found
    exact List.mem_of_getElem? found
  · rename_i _ clean
    have finished : source.lex = (none, source.lex.2) := Prod.ext clean rfl
    obtain ⟨shown, last, whole, _⟩ := Source.significant_of_lex finished
    rw [whole, List.getLast?_cons, List.getLast?_concat] at here
    cases here
    rw [front] at whole
    rw [(List.cons.inj whole).2]
    exact List.mem_append_right shown (List.mem_singleton_self _)
  · cases here

theorem complaint_at (here : source.significantAt place = some token) (complaint : Complaint) :
    (complaint.error source token).At token := by
  obtain ⟨_, _, grown⟩ := source.grown
  exact (grown.tracks.1 token (mem_of_significantAt here).1).1.complaint_at complaint

theorem isLexical_of_lex (met : source.lex.1 = some error) : error.IsLexical := by
  have leads := Lexer.leads_of_source source
  rw [met] at leads
  exact leads.isLexical

end Source

namespace Parser

/-- The parser has moved to the significant token at a place of its source. -/
structure State.StandsAt (s : State) (source : Source) (place : Nat) : Prop where
  reads : s.source = source
  follows : ∃ lexer, Follows lexer s ∧ Lexer.Abreast source place lexer

variable {source : Source} {place : Nat} {s s' : State} {token : Token} {rest : TokenStream}
  {error : SyntaxError} {complaint : Complaint}

namespace State.StandsAt

theorem ofSource (source : Source) (options : Options) :
    (State.ofSource source options).StandsAt source 0 where
  reads := rfl
  follows := ⟨_, follows_ofSource source options, Lexer.abreast_ofSource source⟩

variable (stands : s.StandsAt source place)
include stands

theorem current : source.significantAt place = some s.current := by
  obtain ⟨lexer, follows, abreast⟩ := stands.follows
  rw [follows.current]
  exact abreast.shown

theorem last : source.significantAt (place - 1) = some s.last := by
  obtain ⟨lexer, follows, abreast⟩ := stands.follows
  rw [follows.last]
  exact abreast.last

theorem next (next : s.upcoming.next = (.ok token, rest)) :
    source.significantAt (place + 1) = some token := by
  obtain ⟨lexer, follows, abreast⟩ := stands.follows
  obtain ⟨onward, moved, _⟩ := follows.moved next
  have answered : (lexer.call .advance).1 = .ok token := congrArg Prod.fst moved
  exact (Lexer.InView.plain abreast).answers answered

theorem read (next : s.upcoming.next = (.error error, rest)) : source.lex.1 = some error := by
  obtain ⟨lexer, follows, abreast⟩ := stands.follows
  obtain ⟨onward, moved, _⟩ := follows.failed next
  have failed : lexer.call .advance = (.error error, onward) := moved
  exact ((Lexer.InView.plain abreast).fails failed).1

theorem advance {done : Unit} (moved : advance s = .ok done s') :
    s'.StandsAt source (place + 1) := by
  obtain ⟨lexer, follows, abreast⟩ := stands.follows
  obtain ⟨token, onward, moves, further⟩ := follows.advance_ok moved
  exact ⟨(advance_keeps moved).1.trans stands.reads, onward, further, abreast.advance moves⟩

theorem atDepth (depth : Nat) : (s.atDepth depth).StandsAt source place := by
  obtain ⟨lexer, follows, abreast⟩ := stands.follows
  exact ⟨stands.reads, lexer, follows.atDepth depth, abreast⟩

theorem isAbout (inside : 0 < place)
    (has : ∃ place, 0 < place ∧ source.significantAt place = some token)
    (about : complaint.Fits s token) : (complaint.error s.source token).IsAbout source := by
  obtain ⟨other, behind, there⟩ := has
  rw [stands.reads]
  cases complaint with
  | constVariable name =>
      obtain ⟨isSign, rfl, isName⟩ := about
      have here := stands.last
      have inside : 0 < place - 1 := by
        refine Nat.pos_of_ne_zero fun front => ?_
        rw [front, source.significantAt_zero] at here
        rw [← Option.some.inj here] at isSign
        cases isSign
      have again : place - 1 + 1 = place := by omega
      exact .complaint inside here ⟨isSign, s.current, by rw [again]; exact stands.current, isName⟩
  | reservedEnumValue found =>
      obtain ⟨same, reserved, rfl, described⟩ := about
      exact .complaint inside stands.current
        ⟨same, reserved, fun isString => ⟨s.last, stands.last, described isString⟩⟩
  | _ => exact .complaint behind there about

end State.StandsAt

theorem State.StandsAt.moves (stands : s.StandsAt source place) :
    Yields (fun _ s' => ∃ place, 0 < place ∧ s'.StandsAt source place) (·.IsAbout source)
      (Parser.advance s) := by
  cases moved : Parser.advance s with
  | ok done s' => exact ⟨_, Nat.succ_pos place, stands.advance moved⟩
  | error e s' =>
      have steps := advanced s
      rw [moved] at steps
      cases steps with
      | failed next => exact .read (stands.read next)
      | exceeded next _ _ _ =>
          show ((Complaint.tooManyTokens _).error s.source _).IsAbout source
          rw [stands.reads]
          exact .complaint (Nat.succ_pos place) (stands.next next) trivial

/-- A run stands at significant tokens of its source and comes to errors that are about it. -/
theorem alone_isAbout (source : Source) :
    Alone (fun s => ∃ place, 0 < place ∧ s.StandsAt source place)
      (fun token => ∃ place, 0 < place ∧ source.significantAt place = some token)
      (·.IsAbout source) where
  current := by
    rintro s ⟨place, inside, stands⟩
    exact ⟨place, inside, stands.current⟩
  moves := by
    rintro s ⟨place, _, stands⟩
    exact stands.moves
  looks := by
    rintro s ⟨place, inside, stands⟩
    have steps := looked s
    generalize lookahead s = outcome at steps ⊢
    cases steps with
    | ended ends => exact ⟨place, inside, stands.current⟩
    | failed goesOn next => exact .read (stands.read next)
    | shown goesOn next => exact ⟨place + 1, Nat.succ_pos place, stands.next next⟩
  atDepth := by
    rintro s ⟨place, inside, stands⟩ depth
    exact ⟨place, inside, stands.atDepth depth⟩
  fails := by
    rintro s token complaint ⟨place, inside, stands⟩ has about
    exact stands.isAbout inside has about

end Parser

section
variable {source : Source} {options : Options} {error : SyntaxError}

/-- Whatever a source is parsed as, the error is about something in it. -/
theorem parse_error_isAbout
    (failed : Document.parse source options = .error error ∨
      Value.parse source options = .error error ∨
      Value.parseConst source options = .error error ∨
      TypeRef.parse source options = .error error) : error.IsAbout source :=
  (Parser.alone_isAbout source).parse_error (State.StandsAt.ofSource source options).moves failed

/-- The error stands at the significant token at a place of the source, the only one that starts
there. The mark in front of the text is none of them. -/
structure SyntaxError.AtPlace (error : SyntaxError) (source : Source) (place : Nat)
    (token : Token) : Prop where
  inside : 0 < place
  here : source.significantAt place = some token
  starts : error.At token
  only : ∀ other ∈ source.lex.2.significant, other.lexeme ≠ .sof → other.start = error.offset →
    other = token

theorem Complaint.atPlace {place : Nat} {token : Token} (inside : 0 < place)
    (here : source.significantAt place = some token) (complaint : Complaint) :
    (complaint.error source token).AtPlace source place token where
  inside := inside
  here := here
  starts := Source.complaint_at here complaint
  only other member isRead same := by
    obtain ⟨_, _, grown⟩ := source.grown
    exact grown.eq_of_start (List.mem_filter.mp member).1 (Source.mem_of_significantAt here).1
      isRead (Source.ne_sof_of_significantAt inside here) same

/-- The error is that a variable stands where only constant values may. Its sign is the token at
the place, and the name that the error tells stands right behind it. -/
def SyntaxError.TellsVariable (error : SyntaxError) (source : Source) (place : Nat)
    (token : Token) : Prop :=
  token.lexeme = .punctuator .dollar ∧ ∃ name next,
    source.significantAt (place + 1) = some next ∧ next.lexeme = .name name ∧
      error.kind = .unexpectedToken none ("variable \"$" ++ name ++ "\"") ∧
      error.message = "Unexpected variable \"$" ++ name ++ "\" in constant value."

/-- Where an error stands by its kind. What an unexpected token is found to be is the description of
the token there, unless a variable is told. -/
def SyntaxError.TellsToken (error : SyntaxError) (source : Source) : Prop :=
  match error.kind with
  | .unexpectedToken _ found => ∃ place token, error.AtPlace source place token ∧
      (found = token.description ∨ error.TellsVariable source place token)
  | .invalidDescription => ∃ place token, error.AtPlace source place token ∧
      (token.kind = .string ∨ token.kind = .blockString)
  | .tokenLimitExceeded _ | .nestingTooDeep _ => ∃ place token, error.AtPlace source place token
  | _ => True

theorem SyntaxError.tellsToken_of_isLexical (lexical : error.IsLexical) :
    error.TellsToken source := by
  obtain ⟨fault, same⟩ := lexical
  unfold TellsToken
  rw [same]
  cases fault <;> trivial

theorem Complaint.tellsToken {complaint : Complaint} {place : Nat} {token : Token}
    (stands : (complaint.error source token).AtPlace source place token)
    (fits : complaint.FitsAt source place token) :
    (complaint.error source token).TellsToken source := by
  cases complaint with
  | constVariable name =>
      obtain ⟨isSign, next, behind, isName⟩ := fits
      exact ⟨place, token, stands, .inr ⟨isSign, name, next, behind, isName, rfl, rfl⟩⟩
  | misplacedDescription =>
      refine ⟨place, token, stands, ?_⟩
      simpa [FitsAt, isDescription] using fits
  | reservedFragmentName | reservedEnumValue => trivial
  | tooManyTokens | tooDeep => exact ⟨place, token, stands⟩
  | unexpected | expected | expectedKeyword =>
      exact ⟨place, token, stands, .inl (congrArg Lexeme.description fits)⟩

/-- Errors of parsing point at the token that they tell. Every one of them stands at a place of the
source, and those that are about a token stand at its start. -/
theorem parse_error_tellsToken
    (failed : Document.parse source options = .error error ∨
      Value.parse source options = .error error ∨
      Value.parseConst source options = .error error ∨
      TypeRef.parse source options = .error error) :
    error.StandsIn source ∧ error.TellsToken source := by
  refine ⟨parse_error_standsIn failed, ?_⟩
  cases parse_error_isAbout failed with
  | read met => exact SyntaxError.tellsToken_of_isLexical (Source.isLexical_of_lex met)
  | complaint inside here fits =>
      exact Complaint.tellsToken (Complaint.atPlace inside here _) fits

end

/-- A variable inside a list that is a constant value. -/
theorem parse_error_tellsToken_variable :
    let source := Source.ofBody "[1, $a]"
    ∃ error, Value.parseConst source Options.default = .error error ∧ error.offset = 4 ∧
      error.kind = .unexpectedToken none "variable \"$a\"" ∧
      error.StandsIn source ∧ error.TellsToken source := by
  intro source
  have place : (match Value.parseConst source Options.default with
      | .ok _ => none
      | .error error => some (error.offset, error.kind)) =
      some (4, .unexpectedToken none "variable \"$a\"") := by decide +kernel
  cases parsed : Value.parseConst source Options.default with
  | ok _ => simp [parsed] at place
  | error error =>
      obtain ⟨offset, kind⟩ : error.offset = 4 ∧
          error.kind = .unexpectedToken none "variable \"$a\"" := by
        simpa [parsed] using place
      exact ⟨error, rfl, offset, kind, parse_error_tellsToken (.inr (.inr (.inl parsed)))⟩

end GraphQL

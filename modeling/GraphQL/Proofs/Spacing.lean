import GraphQL.Proofs.Parser.Pairs.Document
import GraphQL.Proofs.Tiling
import GraphQL.Proofs.Tracking

/-!
Parsing looks at the significant tokens of a text only: where two texts have the same ones, it
comes to the same tree in both, or to the same error at the same one of them.
-/

namespace GraphQL

/-- All tokens but the comments, with the marks around the text. -/
def Lexer.significant (lexer : Lexer) : List Token := lexer.tokens.toList.filter Token.isSignificant

theorem Lexeme.eq_of_kind_value (a b : Lexeme) (same : (a.kind, a.value?) = (b.kind, b.value?)) :
    a = b := by
  cases a <;> cases b <;> simp_all [Lexeme.kind, Lexeme.value?]

namespace Parser

/-- The tokens at the same place among those of two texts. -/
def Twins (left right : List Token) (a b : Token) : Prop :=
  ∃ place : Nat, left[place]? = some a ∧ right[place]? = some b

def TwinStreams (left right : List Token) (first second : TokenStream) : Prop :=
  ∃ (pairs : List (Token × Token)) (a b : Token),
    first = ⟨pairs.map fun pair => .ok pair.1, .ok a⟩ ∧
      second = ⟨pairs.map fun pair => .ok pair.2, .ok b⟩ ∧
      Twins left right a b ∧ ∀ pair ∈ pairs, Twins left right pair.1 pair.2

/-- Two parsers that have gone equally far, each in its own text. -/
structure TwinStates (source source' : Source) (options : Options) (left right : List Token)
    (s t : State) : Prop where
  first : s.source = source ∧ s.options = options
  second : t.source = source' ∧ t.options = options
  current : Twins left right s.current t.current
  upcoming : TwinStreams left right s.upcoming t.upcoming
  tokenCount : s.tokenCount = t.tokenCount
  depth : s.depth = t.depth

def twinned (source source' : Source) (options : Options) (left right : List Token) : Pairing where
  states := TwinStates source source' options left right
  tokens := Twins left right
  errors e f := ∃ complaint a b, Twins left right a b ∧ e = Complaint.error source a complaint ∧
    f = Complaint.error source' b complaint
  levels := Eq
  relocate := id
  excused _ := False
  leads _ _ := True

section
variable {left right : List Token} {source source' : Source} {options : Options}

theorem Twins.lexeme_eq (same : left.map Token.lexeme = right.map Token.lexeme) {a b : Token}
    (twins : Twins left right a b) : a.lexeme = b.lexeme := by
  obtain ⟨place, first, second⟩ := twins
  have both := congrArg (·[place]?) same
  simpa [List.getElem?_map, first, second] using both

theorem TwinStates.atDepth {s t : State} (alike : TwinStates source source' options left right s t)
    {depth depth' : Nat} (same : depth = depth') :
    TwinStates source source' options left right (s.atDepth depth) (t.atDepth depth') :=
  ⟨alike.first, alike.second, alike.current, alike.upcoming, alike.tokenCount, same⟩

theorem TwinStates.tooDeepError {s t : State}
    (alike : TwinStates source source' options left right s t) :
    (twinned source source' options left right).errors s.tooDeepError t.tooDeepError := by
  refine ⟨.tooDeep options.maxNestingDepth, s.current, t.current, alike.current, ?_, ?_⟩
  · rw [State.tooDeepError, alike.first.1, alike.first.2]
  · rw [State.tooDeepError, alike.second.1, alike.second.2]

theorem TwinStreams.next {first second : TokenStream}
    (streams : TwinStreams left right first second) :
    ∃ a b, first.next = (.ok a, first.next.2) ∧ second.next = (.ok b, second.next.2) ∧
      Twins left right a b ∧ TwinStreams left right first.next.2 second.next.2 := by
  obtain ⟨pairs, a, b, rfl, rfl, ends, each⟩ := streams
  cases pairs with
  | nil => exact ⟨a, b, rfl, rfl, ends, [], a, b, rfl, rfl, ends, each⟩
  | cons pair rest =>
      have others : ∀ other ∈ rest, Twins left right other.1 other.2 := fun other member =>
        each other (List.mem_cons_of_mem pair member)
      exact ⟨pair.1, pair.2, rfl, rfl, each pair List.mem_cons_self, rest, a, b, rfl, rfl, ends,
        others⟩

variable (same : left.map Token.lexeme = right.map Token.lexeme)
include same

theorem advance_twinned :
    (twinned source source' options left right).Maps id advance advance := by
  intro s t alike
  obtain ⟨a, b, next, next', twins, onward⟩ := alike.upcoming.next
  unfold advance
  rw [next, next']
  dsimp only
  rw [← twins.lexeme_eq same, alike.first.2, alike.second.2, ← alike.tokenCount]
  have moved (count : Nat) :
      TwinStates source source' options left right
        ⟨s.source, options, a, s.current, s.upcoming.next.2, count, s.depth⟩
        ⟨t.source, options, b, t.current, t.upcoming.next.2, count, t.depth⟩ :=
    ⟨⟨alike.first.1, rfl⟩, ⟨alike.second.1, rfl⟩, twins, onward, rfl, alike.depth⟩
  split
  · exact ⟨rfl, moved _, fun _ _ => trivial⟩
  split
  · exact ⟨rfl, moved _, fun _ _ => trivial⟩
  · split
    · exact ⟨fun _ _ => trivial, .inr ⟨_, _, rfl, _, a, b, twins, by rw [← alike.first.1],
        by rw [← alike.second.1]⟩⟩
    · exact ⟨rfl, moved _, fun _ _ => trivial⟩

theorem lookahead_twinned :
    (twinned source source' options left right).Agree (Twins left right) lookahead lookahead := by
  intro s t alike
  obtain ⟨a, b, next, next', twins, _⟩ := alike.upcoming.next
  unfold lookahead
  rw [← alike.current.lexeme_eq same, next, next']
  split
  · exact ⟨alike.current, alike, .stay⟩
  · exact ⟨twins, alike, .stay⟩

theorem twinned_lawful (bare : options.noLocation = true) :
    (twinned source source' options left right).Lawful where
  lexeme_eq twins := twins.lexeme_eq same
  current_twins alike := alike.current
  fail_errors alike twins complaint _ _ :=
    ⟨complaint, _, _, twins, by rw [alike.first.1], by rw [alike.second.1]⟩
  advance_maps := advance_twinned same
  lookahead_agree := lookahead_twinned same
  span_maps _ s t alike := by
    refine ⟨?_, alike, .stay⟩
    rw [alike.first.2, alike.second.2, bare]
    rfl
  rounds_maps s t alike := by
    obtain ⟨pairs, a, b, first, second, _⟩ := alike.upcoming
    refine ⟨?_, alike, .stay⟩
    simp [first, second]
  opened deeper := Nat.succ.inj deeper
  closed deepest := deepest
  deepest none alike := .inr ⟨none.symm, alike.tooDeepError⟩
  full alike full := by
    refine .inr ⟨?_, alike.tooDeepError⟩
    rwa [alike.second.2, ← alike.depth, ← alike.first.2]
  opens alike free := by
    refine ⟨?_, alike.atDepth (congrArg (· + 1) alike.depth)⟩
    rwa [alike.second.2, ← alike.depth, ← alike.first.2]
  closes alike := alike.atDepth (congrArg (· - 1) alike.depth)
  nested_leads _ _ _ _ := trivial

omit same in
theorem fragmentVariables_twinned :
    (twinned source source' options left right).Maps id allowsFragmentVariables
      allowsFragmentVariables := by
  intro s t alike
  refine ⟨?_, alike, .stay⟩
  rw [alike.first.2, alike.second.2]
  rfl

theorem twinStreams_zip {shown shown' : List Token} {last last' : Token}
    (isLeft : left = .sof :: (shown ++ [last])) (isRight : right = .sof :: (shown' ++ [last'])) :
    TwinStreams left right ⟨shown.map .ok, .ok last⟩ ⟨shown'.map .ok, .ok last'⟩ := by
  have lengths : shown.length = shown'.length := by
    have both := congrArg List.length same
    simpa [isLeft, isRight] using both
  refine ⟨shown.zip shown', last, last', ?_, ?_, ⟨shown.length + 1, ?_, ?_⟩, ?_⟩
  · have fsts : (shown.zip shown').map Prod.fst = shown := List.map_fst_zip (Nat.le_of_eq lengths)
    conv => lhs; rw [← fsts, List.map_map]
    rfl
  · have snds : (shown.zip shown').map Prod.snd = shown' :=
      List.map_snd_zip (Nat.le_of_eq lengths.symm)
    conv => lhs; rw [← snds, List.map_map]
    rfl
  · simp [isLeft]
  · simp [isRight, lengths]
  · intro pair member
    obtain ⟨place, here⟩ := List.mem_iff_getElem?.mp member
    obtain ⟨first, second⟩ := List.getElem?_zip_eq_some.mp here
    refine ⟨place + 1, ?_, ?_⟩
    · rw [isLeft, List.getElem?_cons_succ,
        List.getElem?_append_left (List.getElem?_eq_some_iff.mp first).1, first]
    · rw [isRight, List.getElem?_cons_succ,
        List.getElem?_append_left (List.getElem?_eq_some_iff.mp second).1, second]

end

end Parser

theorem Source.significant_of_lex {source : Source} {lexer : Lexer}
    (finished : source.lex = (none, lexer)) :
    ∃ shown last, lexer.significant = .sof :: (shown ++ [last]) ∧
      (TokenStream.ofSource source).significant = ⟨shown.map .ok, .ok last⟩ := by
  obtain ⟨tokens, last, reads, all⟩ := readsTo_of_lex finished
  refine ⟨tokens.filter Token.isSignificant, last, ?_, ?_⟩
  · have ends := Token.isSignificant_of_eof reads.ends
    rw [Lexer.significant, all, List.filter_cons_of_pos rfl, List.filter_append,
      List.filter_cons_of_pos ends, List.filter_nil]
  · have whole : TokenStream.ofSource source = ⟨tokens.map .ok, .ok last⟩ :=
      TokenStream.ofScan_eq reads (Nat.le_refl _)
    rw [whole, TokenStream.significant, List.filter_map]
    rfl

def SyntaxError.At (error : SyntaxError) (token : Token) : Prop :=
  error.offset = token.start ∧ error.position = token.startPosition

theorem Token.Tracks.complaint_at {source : Source} {token : Token} (tracks : token.Tracks source)
    (complaint : Complaint) : (complaint.error source token).At token :=
  ⟨rfl, tracks.startPosition.symm⟩

/-- The same tree for both texts, or the same error at the same one of their significant
tokens. -/
def SameAnswer (lexer lexer' : Lexer) : Except SyntaxError α → Except SyntaxError α → Prop
  | .ok a, .ok b => a = b
  | .error e, .error f =>
      e.kind = f.kind ∧ e.message = f.message ∧ e.notes = f.notes ∧
        ∃ (place : Nat) (a b : Token), lexer.significant[place]? = some a ∧
          lexer'.significant[place]? = some b ∧ e.At a ∧ f.At b
  | _, _ => False

namespace Parser

theorem complaint_at {source : Source} {clean : Bool} {lexer : Lexer}
    (reached : lexer.Reached source clean) {token : Token} (member : token ∈ lexer.tokens.toList)
    (complaint : Complaint) : (complaint.error source token).At token := by
  obtain ⟨_, behind, _, grown⟩ := reached.holds
  exact (grown.tracks.1 token member).1.complaint_at complaint

theorem sameAnswer {source source' : Source} {options : Options} {lexer lexer' : Lexer}
    (finished : source.lex = (none, lexer)) (finished' : source'.lex = (none, lexer'))
    {change : α → α} (stays : ∀ a, change a = a) {first second : Except SyntaxError α}
    (answers : (twinned source source' options lexer.significant lexer'.significant).Answers
      change first second) : SameAnswer lexer lexer' first second := by
  cases first with
  | ok a =>
      obtain rfl : second = .ok (change a) := answers
      exact (stays a).symm
  | error e =>
      rcases answers with none | ⟨f, rfl, complaint, a, b, ⟨place, here, there⟩, rfl, rfl⟩
      · exact none.elim
      · have read {source : Source} {lexer : Lexer} (finished : source.lex = (none, lexer))
            {token : Token} (here : lexer.significant[place]? = some token) :
            (complaint.error source token).At token := by
          have member := (List.mem_filter.mp (List.mem_of_getElem? here)).1
          exact complaint_at (Lexer.reached_of_lex finished) member complaint
        exact ⟨rfl, rfl, rfl, place, a, b, here, there, read finished here, read finished' there⟩

end Parser

/-- Two texts with the same kinds and values of significant tokens parse alike. -/
theorem parse_of_same_tokens {source source' : Source} {lexer lexer' : Lexer}
    (finished : source.lex = (none, lexer)) (finished' : source'.lex = (none, lexer'))
    (same : lexer.significant.map (fun token => (token.kind, token.value?)) =
      lexer'.significant.map fun token => (token.kind, token.value?))
    {options : Options} (bare : options.noLocation = true) :
    SameAnswer lexer lexer' (Document.parse source options) (Document.parse source' options) ∧
      SameAnswer lexer lexer' (Value.parse source options) (Value.parse source' options) ∧
      SameAnswer lexer lexer' (Value.parseConst source options)
        (Value.parseConst source' options) ∧
      SameAnswer lexer lexer' (TypeRef.parse source options) (TypeRef.parse source' options) := by
  have lexemes : lexer.significant.map Token.lexeme = lexer'.significant.map Token.lexeme := by
    refine (List.map_inj_right Lexeme.eq_of_kind_value).mp ?_
    rw [List.map_map, List.map_map]
    exact same
  obtain ⟨shown, last, isLeft, stream⟩ := Source.significant_of_lex finished
  obtain ⟨shown', last', isRight, stream'⟩ := Source.significant_of_lex finished'
  have lawful : (Parser.twinned source source' options lexer.significant
      lexer'.significant).Lawful := Parser.twinned_lawful lexemes bare
  have alike : Parser.TwinStates source source' options lexer.significant lexer'.significant
      (.ofSource source options) (.ofSource source' options) := by
    refine ⟨⟨rfl, rfl⟩, ⟨rfl, rfl⟩, ⟨0, ?_, ?_⟩, ?_, rfl, rfl⟩
    · rw [isLeft]; rfl
    · rw [isRight]; rfl
    · show Parser.TwinStreams _ _ (TokenStream.ofSource source).significant
        (TokenStream.ofSource source').significant
      rw [stream, stream']
      exact Parser.twinStreams_zip lexemes isLeft isRight
  obtain ⟨document, value, const, type⟩ :=
    lawful.parse_answers (lawful.fragmentHeads Parser.fragmentVariables_twinned) rfl alike
  exact ⟨Parser.sameAnswer finished finished' Document.relocate_id document,
    Parser.sameAnswer finished finished' Value.relocate_id value,
    Parser.sameAnswer finished finished' Value.relocate_id const,
    Parser.sameAnswer finished finished' TypeRef.relocate_id type⟩

/-- A selection set with a byte order mark, a comment and line breaks, and without them. -/
theorem parse_respaced :
    let source := Source.ofBody "\x7ba b\x7d"
    let source' := Source.ofBody "\uFEFF\x7b # two fields\n  a,\r\n  b\n\x7d"
    let options : Options := ⟨true, false, none, 8⟩
    source.lex.1 = none ∧ source'.lex.1 = none ∧
      SameAnswer source.lex.2 source'.lex.2 (Document.parse source options)
        (Document.parse source' options) := by
  intro source source' options
  have finished : source.lex.1 = none := by decide +kernel
  have finished' : source'.lex.1 = none := by decide +kernel
  have same : source.lex.2.significant.map (fun token => (token.kind, token.value?)) =
      source'.lex.2.significant.map fun token => (token.kind, token.value?) := by decide +kernel
  refine ⟨finished, finished', (parse_of_same_tokens (Prod.ext finished rfl)
    (Prod.ext finished' rfl) same (Eq.refl options.noLocation)).1⟩

end GraphQL

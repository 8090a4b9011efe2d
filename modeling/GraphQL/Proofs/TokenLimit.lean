import GraphQL.Proofs.Following
import GraphQL.Proofs.Parser.Located

/-!
The limit of tokens filters what is parsed: it refuses the texts that have more tokens than it
allows, at the first one too many unless something else is wrong before that, and changes
nothing else.
-/

namespace GraphQL

def Options.counting (options : Options) (maxTokens : Option Nat) : Options :=
  { options with maxTokens }

/-- The tokens of a source that count, up to its end or its first error. -/
def Source.countedTokens (source : Source) : List Token :=
  source.lex.2.tokens.toList.filter Token.counts

/-- The error of a limit, at the first token that the limit does not allow. -/
structure SyntaxError.Exceeds (error : SyntaxError) (source : Source) (limit : Nat) : Prop where
  kind : error.kind = .tokenLimitExceeded limit
  place : ∃ token, source.countedTokens[limit]? = some token ∧ error.At token

def SyntaxError.IsOther (error : SyntaxError) : Prop :=
  ∀ limit, error.kind ≠ .tokenLimitExceeded limit

/-- The limit gives exactly the trees of texts with no more tokens. Where it fails, it is
exceeded, or the same error comes without it. -/
structure FiltersTokens (source : Source) (limit : Nat) (limited free : Except SyntaxError α) :
    Prop where
  ok_iff : ∀ tree, limited = .ok tree ↔ free = .ok tree ∧ source.countedTokens.length ≤ limit
  fails : ∀ error, limited = .error error →
    error.Exceeds source limit ∨ error.IsOther ∧ free = .error error

theorem Source.countedTokens_length {source : Source} {all : List Lexeme}
    (lexed : Lexed source.chars all) :
    source.countedTokens.length = (all.filter fun found => !found.isComment).length := by
  obtain ⟨lexer, finished, lexemes⟩ := Source.lex_of_lexed lexed
  have counted : source.countedTokens.map Token.lexeme = lexer.lexemes.filter Lexeme.counts := by
    rw [countedTokens, finished, Lexer.lexemes, List.filter_map]
    rfl
  have same : all.filter Lexeme.counts = all.filter fun found => !found.isComment := by
    apply List.filter_congr
    intro found member
    rcases lexed.proper found member with proper | isComment
    · cases found <;> first | rfl | cases proper
    · cases found <;> first | rfl | cases isComment
  rw [← List.length_map Token.lexeme, counted, lexemes, List.filter_cons, List.filter_append, same]
  simp [Lexeme.counts]

theorem SyntaxError.IsLexical.isOther {error : SyntaxError} (lexical : error.IsLexical) :
    error.IsOther := by
  intro limit
  obtain ⟨fault, same⟩ := lexical
  rw [same]
  cases fault <;> simp [Lexical.Fault.kind]

namespace Complaint

theorem isOther_of_grammar {complaint : Complaint} (grammar : complaint.isLimit = false)
    (source : Source) (token : Token) : (complaint.error source token).IsOther := by
  intro limit same
  have kind : complaint.kind = .tokenLimitExceeded limit := same
  cases complaint with
  | tooManyTokens => cases grammar
  | _ => cases kind

theorem isOther_tooDeep (limit : Nat) (source : Source) (token : Token) :
    ((tooDeep limit).error source token).IsOther := by
  rintro _ ⟨⟩

end Complaint

namespace Parser

/-- A state within the limit, on the way that advancing alone takes through the text. -/
structure Counting (text : Source) (limit : Nat) (s : State) : Prop where
  source : s.source = text
  limited : s.options.maxTokens = some limit
  within : s.tokenCount ≤ limit
  follows : ∃ lexer, Follows lexer s ∧ Lexer.Leads text.lex.2 lexer text.lex.1

namespace Counting

variable {text : Source} {limit : Nat} {s s' : State} {token : Token} {rest : TokenStream}
  {error : SyntaxError}

theorem ofSource (text : Source) (limit : Nat) (options : Options) :
    Counting text limit (.ofSource text (options.counting (some limit))) where
  source := rfl
  limited := rfl
  within := Nat.zero_le limit
  follows := ⟨.ofSource text, follows_ofSource text _, Lexer.leads_of_source text⟩

theorem advance (counting : Counting text limit s) (moved : advance s = .ok () s') :
    Counting text limit s' := by
  obtain ⟨lexer, follows, leads⟩ := counting.follows
  obtain ⟨token, onward, moves, further⟩ := follows.advance_ok moved
  have leads' := leads.advance moves
  have steps := advanced s
  rw [moved] at steps
  cases steps with
  | ended next ends =>
      exact ⟨counting.source, counting.limited, counting.within, onward, further, leads'⟩
  | counted next goesOn within =>
      exact ⟨counting.source, counting.limited, within limit counting.limited, onward, further,
        leads'⟩

theorem kept (text : Source) (limit : Nat) : Kept (Counting text limit) where
  advance := Counting.advance
  atDepth counting depth := by
    obtain ⟨lexer, follows, leads⟩ := counting.follows
    exact ⟨counting.source, counting.limited, counting.within, lexer, follows.atDepth depth, leads⟩

theorem isOther (counting : Counting text limit s)
    (failed : s.upcoming.next = (.error error, rest)) : error.IsOther := by
  obtain ⟨lexer, follows, _⟩ := counting.follows
  obtain ⟨onward, _, shown, _⟩ := follows.failed failed
  exact (Lexer.isLexical_of_lookahead shown).isOther

theorem exceeds (counting : Counting text limit s)
    (next : s.upcoming.next = (.ok token, rest)) (goesOn : token.lexeme ≠ .eof)
    (beyond : limit < s.tokenCount + 1) : (s.tooManyError token limit).Exceeds text limit := by
  obtain ⟨lexer, follows, leads⟩ := counting.follows
  obtain ⟨onward, moved, counted, further, _⟩ := follows.moved next
  have within := counting.within
  have full : lexer.counted.length = limit := by
    rw [← follows.tokenCount]
    omega
  rw [if_neg goesOn] at counted
  have kept := (leads.advance moved).extends
  have front : onward.counted <+: text.countedTokens :=
    ((List.take_prefix _ _).trans kept).filter Token.counts
  have here : onward.counted[limit]? = some token := by
    rw [counted, ← full, List.getElem?_concat_length]
  constructor
  · rfl
  · refine ⟨token, ?_, ?_⟩
    · obtain ⟨others, whole⟩ := front
      rw [← whole, List.getElem?_append_left (List.getElem?_eq_some_iff.mp here).1, here]
    · obtain ⟨clean, reached⟩ := further.reached
      have member : token ∈ onward.tokens.toList :=
        List.mem_of_mem_take (List.mem_filter.mp (List.mem_of_getElem? here)).1
      exact complaint_at reached member (.tooManyTokens limit)

end Counting

/-- Two runs over the same text, of which only the first counts tokens. Where the first comes to
more than it allows, the second need not fail. -/
def uncounted (options : Options) (text : Source) (limit : Nat) : Pairing where
  states s t := s.options = options.counting (some limit) ∧ Counting text limit s ∧
    t = s.under (options.counting none)
  tokens := Eq
  errors e f := e = f ∧ e.IsOther
  levels := Eq
  relocate := id
  excused error := error.Exceeds text limit
  leads _ _ := True

section
variable {options : Options} {text : Source} {limit : Nat}

theorem uncounted_optioned :
    (uncounted options text limit).Optioned (options.counting (some limit))
      (options.counting none) (Counting text limit) where
  states_iff := Iff.rfl
  tokens_iff := Iff.rfl
  keeps := Counting.kept text limit
  relocate _ := rfl
  opened := Nat.succ.inj
  closed := id
  reads here failed := ⟨rfl, here.isOther failed⟩
  fails grammar source token := ⟨rfl, Complaint.isOther_of_grammar grammar source token⟩
  counts here next goesOn limited beyond := by
    cases limited
    exact .inl (here.exceeds next goesOn beyond)
  fewer := .inr rfl
  nests source token :=
    .inr ⟨rfl, ⟨rfl, Complaint.isOther_tooDeep _ source token⟩, fun _ => Eq.symm⟩
  atMost := Nat.le_refl _
  advance_leads _ _ _ := trivial
  lookahead_leads _ _ _ := trivial
  nested_leads _ _ _ := trivial

theorem filtersTokens {change : α → α} (stays : ∀ tree, change tree = tree)
    {first second : Except SyntaxError α}
    (answers : (uncounted options text limit).Answers change first second)
    (few : ∀ tree, first = .ok tree → text.countedTokens.length ≤ limit) :
    FiltersTokens text limit first second := by
  constructor
  · intro tree
    constructor
    · rintro rfl
      refine ⟨?_, few tree rfl⟩
      rw [← stays tree]
      exact answers
    · rintro ⟨rfl, within⟩
      cases first with
      | ok found =>
          have same : Except.ok tree = .ok (change found) := answers
          rw [same, stays]
      | error e =>
          rcases answers with exceeds | ⟨f, failed, _⟩
          · obtain ⟨token, here, _⟩ := exceeds.place
            obtain ⟨beyond, _⟩ := List.getElem?_eq_some_iff.mp here
            omega
          · cases failed
  · rintro error rfl
    rcases answers with exceeds | ⟨_, failed, rfl, other⟩
    · exact .inl exceeds
    · exact .inr ⟨other, failed⟩

theorem few_of_document {document : Document}
    (parsed : Document.parse text (options.counting (some limit)) = .ok document) :
    text.countedTokens.length ≤ limit := by
  obtain ⟨_, all, _, lexed, kept, _, _, few⟩ := Document.parse_ok parsed
  rw [Source.countedTokens_length lexed, kept]
  exact few limit rfl

theorem few_of_whole {item : Parser α} {spell : α → List Lexeme} {ok : α → Bool}
    (each : Reads (options.counting (some limit)) item spell ok)
    (spelled : ∀ found, AllSpelled (spell found)) {found : α}
    (parsed : (whole item).run text (options.counting (some limit)) = .ok found) :
    text.countedTokens.length ≤ limit := by
  obtain ⟨_, all, lexed, kept, few⟩ := whole_parse_ok each spelled parsed
  rw [Source.countedTokens_length lexed, ← kept]
  exact few limit rfl

end

end Parser

open GraphQL.Parser

/-- A limit of tokens is an exact filter on what parses without one. -/
theorem parse_filtersTokens (source : Source) (options : Options) (limit : Nat) :
    FiltersTokens source limit (Document.parse source (options.counting (some limit)))
        (Document.parse source (options.counting none)) ∧
      FiltersTokens source limit (Value.parse source (options.counting (some limit)))
        (Value.parse source (options.counting none)) ∧
      FiltersTokens source limit (Value.parseConst source (options.counting (some limit)))
        (Value.parseConst source (options.counting none)) ∧
      FiltersTokens source limit (TypeRef.parse source (options.counting (some limit)))
        (TypeRef.parse source (options.counting none)) := by
  have optioned := @uncounted_optioned options source limit
  have start := Counting.ofSource source limit options
  obtain ⟨document, value, const, type⟩ := optioned.lawful.parse_answers
    (optioned.fragmentHeads rfl) (by rfl) (optioned.ofSource source start)
  refine ⟨?_, ?_, ?_, ?_⟩
  · exact filtersTokens Document.relocate_id document fun _ => few_of_document
  · exact filtersTokens Value.relocate_id value fun _ =>
      few_of_whole (value_reads false _) Value.spelled
  · exact filtersTokens Value.relocate_id const fun _ =>
      few_of_whole (value_reads true _) Value.spelled
  · exact filtersTokens TypeRef.relocate_id type fun _ =>
      few_of_whole (typeRef_reads _) TypeRef.spelled

end GraphQL

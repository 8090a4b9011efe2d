import GraphQL.Proofs.Parser.Spans.Tokens
import GraphQL.Proofs.RoundTrip
import GraphQL.Proofs.Spacing

/-!
The spans of nodes form a tree: each node goes from the start of a token to the end of one, its
children lie inside it, and none of them begins before those that are written in front of it
have ended.
-/

namespace GraphQL

open GraphQL.Parser

def Node.isDocument : Node → Bool
  | .document _ => true
  | _ => false

def Node.Before (first second : Node) : Prop :=
  ∃ a b, first.loc = some a ∧ second.loc = some b ∧ a.stop ≤ b.start

/-- What the location of a node has to be in a source. Only a document begins with the mark in
front of the text and ends with the one behind it. -/
structure Location.Spans (source : Source) (node : Node) (loc : Location) : Prop where
  sourced : loc.source = some source
  start : ∃ token ∈ source.lex.2.significant, token.start = loc.start ∧
    (token.lexeme = .sof ↔ node.isDocument = true)
  stop : ∃ token ∈ source.lex.2.significant, token.stop = loc.stop ∧
    (token.lexeme = .eof ↔ node.isDocument = true)
  startPosition : loc.startPosition = source.locationOf loc.start
  endPosition : loc.endPosition = source.locationOf loc.stop
  nonempty : loc.start < loc.stop
  children : ∀ child ∈ node.children, ∃ inner, child.loc = some inner ∧
    loc.start ≤ inner.start ∧ inner.stop ≤ loc.stop
  apart : node.children.Pairwise Node.Before

/-- The source can be read to its end, and everything inside a node of it has its span there. -/
def Node.SpansTree (source : Source) (root : Node) : Prop :=
  source.lex.1 = none ∧
    ∀ node : Node, node.Inside root → ∃ loc, node.loc = some loc ∧ loc.Spans source node

/-- Tokens that take some text each, one behind the other. -/
structure InOrder (tokens : List Token) : Prop where
  nonempty : ∀ token ∈ tokens, token.start < token.stop
  apart : tokens.Pairwise fun first second => first.stop ≤ second.start

section
variable {source : Source} {taken : List Token}

theorem InOrder.sublist {part : List Token} (ordered : InOrder taken) (sub : part.Sublist taken) :
    InOrder part where
  nonempty token member := ordered.nonempty token (sub.subset member)
  apart := ordered.apart.sublist sub

theorem InOrder.encloses (ordered : InOrder taken) {first last token : Token}
    (isFirst : taken.head? = some first) (isLast : taken.getLast? = some last)
    (member : token ∈ taken) : first.start ≤ token.start ∧ token.stop ≤ last.stop := by
  have positive := ordered.nonempty token member
  constructor
  · obtain ⟨rest, rfl⟩ := List.head?_eq_some_iff.mp isFirst
    rcases List.mem_cons.mp member with rfl | later
    · exact Nat.le_refl _
    · have apart := (List.pairwise_cons.mp ordered.apart).1 token later
      have nonempty := ordered.nonempty first List.mem_cons_self
      omega
  · obtain ⟨front, rfl⟩ := List.getLast?_eq_some_iff.mp isLast
    rcases List.mem_append.mp member with earlier | same
    · have apart := (List.pairwise_append.mp ordered.apart).2.2 token earlier last
        (List.mem_singleton_self last)
      have nonempty := ordered.nonempty last (by simp)
      omega
    · obtain rfl := List.mem_singleton.mp same
      exact Nat.le_refl _

theorem Node.ReadFrom.encloses {node : Node} (readFrom : node.ReadFrom source taken)
    (ordered : InOrder taken) :
    ∃ first ∈ taken, ∃ last ∈ taken, node.loc = some (.between source first last) ∧
      ∀ token ∈ taken, first.start ≤ token.start ∧ token.stop ≤ last.stop := by
  obtain ⟨first, last, isFirst, isLast, loc⟩ := readFrom.located
  exact ⟨first, List.mem_of_head? isFirst, last, List.mem_of_getLast? isLast, loc,
    fun token => ordered.encloses isFirst isLast⟩

theorem LaidOut.within {nodes : List Node} (laidOut : LaidOut source nodes taken) :
    ∀ node ∈ nodes, ∃ part, part.Sublist taken ∧ node.ReadFrom source part := by
  induction laidOut with
  | nil => exact fun node member => absurd member List.not_mem_nil
  | @cons first nodes part rest gap readFrom _ ih =>
      intro node member
      have behind : (part ++ rest).Sublist (gap ++ (part ++ rest)) := List.sublist_append_right _ _
      rcases List.mem_cons.mp member with rfl | later
      · exact ⟨part, (List.sublist_append_left _ _).trans behind, readFrom⟩
      · obtain ⟨inner, sub, found⟩ := ih node later
        exact ⟨inner, (sub.trans (List.sublist_append_right _ _)).trans behind, found⟩

theorem LaidOut.apart {nodes : List Node} (laidOut : LaidOut source nodes taken)
    (ordered : InOrder taken) : nodes.Pairwise Node.Before := by
  induction laidOut with
  | nil => exact .nil
  | @cons first nodes part rest gap readFrom others ih =>
      have behind := ordered.sublist (List.sublist_append_right gap (part ++ rest))
      have parted := List.pairwise_append.mp behind.apart
      refine .cons ?_ (ih (behind.sublist (List.sublist_append_right part rest)))
      intro node member
      obtain ⟨inner, sub, found⟩ := others.within node member
      obtain ⟨_, _, last, isIn, loc, _⟩ := readFrom.encloses
        (behind.sublist (List.sublist_append_left part rest))
      obtain ⟨start, alsoIn, _, _, loc', _⟩ := found.encloses
        ((behind.sublist (List.sublist_append_right part rest)).sublist sub)
      exact ⟨_, _, loc, loc', parted.2.2 last isIn start (sub.subset alsoIn)⟩

theorem LaidOut.inside {nodes : List Node} (laidOut : LaidOut source nodes taken)
    (ordered : InOrder taken) {lower upper : Nat}
    (between : ∀ token ∈ taken, lower ≤ token.start ∧ token.stop ≤ upper) :
    ∀ node ∈ nodes, ∃ loc, node.loc = some loc ∧ lower ≤ loc.start ∧ loc.stop ≤ upper := by
  intro node member
  obtain ⟨part, sub, readFrom⟩ := laidOut.within node member
  obtain ⟨first, isIn, last, alsoIn, loc, _⟩ := readFrom.encloses (ordered.sublist sub)
  exact ⟨_, loc, (between first (sub.subset isIn)).1, (between last (sub.subset alsoIn)).2⟩

end

section
variable {source : Source} {lexer : Lexer} (finished : source.lex = (none, lexer))
include finished

theorem tracks_of_lex {token : Token} (member : token ∈ lexer.significant) :
    token.Tracks source := by
  obtain ⟨_, behind, _, grown⟩ := (Lexer.reached_of_lex finished).holds
  exact (grown.tracks.1 token (List.mem_filter.mp member).1).1

theorem apart_of_lex :
    lexer.significant.Pairwise fun first second => first.stop ≤ second.start := by
  obtain ⟨_, behind, _, grown⟩ := (Lexer.reached_of_lex finished).holds
  exact grown.tracks.2.sublist List.filter_sublist

theorem inOrder_of_lex {taken : List Token} (sub : taken.Sublist lexer.significant)
    (spelled : AllSpelled (taken.map Token.lexeme)) : InOrder taken where
  nonempty token member := by
    have isSpelled := List.all_eq_true.mp spelled _ (List.mem_map_of_mem member)
    have kept := (List.mem_filter.mp (sub.subset member)).1
    have tells := (Lexer.lex_tiled finished).covered.each token kept (by
      intro isSof
      rw [isSof] at isSpelled
      cases isSpelled)
    exact tells.nonempty (Lexeme.ne_eof isSpelled)
  apart := (apart_of_lex finished).sublist sub

namespace Parser

theorem stands_ofSource (options : Options) :
    Stands lexer.significant [] (.ofSource source options) where
  ahead := by
    obtain ⟨shown, last, all, stream⟩ := Source.significant_of_lex finished
    have sane := (TokenStream.sane_ofSource source).significant
    rw [stream] at sane
    refine ⟨shown ++ [last], last, all, ⟨?_, sane.ends last rfl, ?_⟩, ?_⟩
    · rw [← List.cons_append, List.getLast?_append]
      rfl
    · intro token member
      rw [← List.cons_append, List.dropLast_concat] at member
      rcases List.mem_cons.mp member with rfl | later
      · rintro ⟨⟩
      · exact sane.goesOn token (List.mem_map_of_mem later)
    · rw [List.dropLast_concat]
      exact stream
  last := by rintro token ⟨⟩

/-- A node that was read between the ends of a text has its span there. -/
theorem spans_of_readFrom {node : Node} {front taken behind : List Token}
    (among : lexer.significant = front ++ taken ++ behind) (readFrom : node.ReadFrom source taken)
    (laidOut : LaidOut source node.children taken) :
    ∃ loc, node.loc = some loc ∧ loc.Spans source node := by
  have sub : taken.Sublist lexer.significant := by
    rw [among]
    exact (List.sublist_append_right _ _).trans (List.sublist_append_left _ _)
  have spelled := readFrom.spelled.allSpelled
  have ordered := inOrder_of_lex finished sub spelled
  obtain ⟨first, isIn, last, alsoIn, loc, encloses⟩ := readFrom.encloses ordered
  have inner : node.isDocument = false := by
    cases node with
    | document _ => exact readFrom.spelled.elim
    | _ => rfl
  have marks {token : Token} (member : token ∈ taken) :
      token.lexeme ≠ .sof ∧ token.lexeme ≠ .eof := by
    have isSpelled := List.all_eq_true.mp spelled _ (List.mem_map_of_mem member)
    constructor <;> intro same <;> rw [same] at isSpelled <;> cases isSpelled
  have significant : source.lex.2.significant = lexer.significant := by rw [finished]
  have tracks := tracks_of_lex finished (sub.subset isIn)
  have tracks' := tracks_of_lex finished (sub.subset alsoIn)
  refine ⟨_, loc, ?_⟩
  constructor
  · rfl
  · exact ⟨first, significant ▸ sub.subset isIn, rfl, by simp [inner, (marks isIn).1]⟩
  · exact ⟨last, significant ▸ sub.subset alsoIn, rfl, by simp [inner, (marks alsoIn).2]⟩
  · exact tracks.startPosition
  · exact tracks'.endPosition
  · exact Nat.lt_of_lt_of_le (ordered.nonempty first isIn) (encloses first isIn).2
  · exact laidOut.inside ordered encloses
  · exact laidOut.apart ordered

theorem inside_spans {s s₁ s' : State} {passed : List Token} {root node : Node}
    (stands : Stands lexer.significant passed s) (here : s.source = source)
    (located : s.options.noLocation = false) (reaches : Reaches s s₁) (spans : Spans s₁ root s')
    (inside : node.Inside root) : ∃ loc, node.loc = some loc ∧ loc.Spans source node := by
  obtain ⟨front, taken, next, behind, all, readFrom, laidOut⟩ :=
    stands.inside located reaches spans inside
  rw [here] at readFrom laidOut
  exact spans_of_readFrom finished all readFrom laidOut

theorem spans_document {document : Document} {s₁ s₂ s' : State} {options : Options}
    (located : options.noLocation = false) (some' : document.definitions ≠ [])
    (stands : Stands lexer.significant [.sof] s₁) (here : s₁.source = source)
    (same : s₁.options = options) (row : Row s₁ (document.definitions.map .definition) s₂)
    (closes : Moves s₂ [.eof] s')
    (loc : document.loc = spanned (.ofSource source options) s') :
    ∃ loc, (Node.document document).loc = some loc ∧ loc.Spans source (.document document) := by
  obtain ⟨used, moves, spelled⟩ := row.reaches
  obtain ⟨taken, there, rfl, _⟩ := stands.moves moves (ne_eof_of_spelled spelled)
  have laidOut := row.laidOut stands there (by rw [same, located])
  rw [here] at laidOut
  obtain ⟨isEnd, moved⟩ := closes.one
  obtain ⟨behind, last, all, ends, _⟩ := there.ahead
  obtain rfl := ends.eof_iff.mp isEnd
  have significant : source.lex.2.significant = lexer.significant := by rw [finished]
  have whole : lexer.significant = .sof :: (taken ++ [s₂.current]) := all
  have isIn : Token.sof ∈ lexer.significant := by simp [whole]
  have alsoIn : s₂.current ∈ lexer.significant := by simp [whole]
  have sub : taken.Sublist lexer.significant := by
    rw [whole]
    exact (List.sublist_append_left _ _).trans (List.sublist_cons_self _ _)
  have ordered := inOrder_of_lex finished sub spelled
  have tracks := tracks_of_lex finished alsoIn
  have between : ∀ token ∈ taken, 0 ≤ token.start ∧ token.stop ≤ s₂.current.stop := by
    intro token member
    have apart := apart_of_lex finished
    rw [whole] at apart
    have parted := (List.pairwise_append.mp (List.pairwise_cons.mp apart).2).2.2 token member _
      (List.mem_singleton_self _)
    exact ⟨Nat.zero_le _, Nat.le_trans parted tracks.ordered⟩
  have located' : s'.options.noLocation = false := by
    rw [closes.options, moves.options, same, located]
  have source' : s'.source = source := by rw [closes.source, moves.source, here]
  refine ⟨.between source .sof s₂.current, ?_, ?_⟩
  · rw [Node.loc, loc, spanned, located', source', (advance_keeps moved).2]
    rfl
  constructor
  · rfl
  · exact ⟨.sof, significant ▸ isIn, rfl, by simp [Node.isDocument, Token.sof]⟩
  · exact ⟨s₂.current, significant ▸ alsoIn, rfl, by simp [Node.isDocument, isEnd]⟩
  · exact (tracks_of_lex finished isIn).startPosition
  · exact tracks.endPosition
  · obtain ⟨first, rest, shown⟩ := List.exists_cons_of_ne_nil some'
    have member : Node.definition first ∈ document.definitions.map .definition := by simp [shown]
    obtain ⟨part, sub, readFrom⟩ := laidOut.within _ member
    obtain ⟨token, isPart, _⟩ := readFrom.encloses (ordered.sublist sub)
    have nonempty := ordered.nonempty token (sub.subset isPart)
    have within := (between token (sub.subset isPart)).2
    show 0 < s₂.current.stop
    omega
  · exact laidOut.inside ordered between
  · exact laidOut.apart ordered

theorem stands_behind_sof {options : Options} {s : State}
    (moves : Moves (State.ofSource source options) [.sof] s) :
    Stands lexer.significant [.sof] s ∧ s.source = source ∧ s.options = options := by
  obtain ⟨_, moved⟩ := moves.one
  exact ⟨(stands_ofSource finished options).advance moved (by rintro ⟨⟩), moves.source,
    moves.options⟩

end Parser

end

section
variable {source : Source} {options : Options} (located : options.noLocation = false)
include located

theorem whole_spansTree {item : Parser α} {spell : α → List Lexeme} {ok : α → Bool}
    {node : α → Node} (reads : Reads options item spell ok) (each : ReadsNode item node)
    (spelled : ∀ found, AllSpelled (spell found)) {found : α}
    (parsed : (whole item).run source options = .ok found) : (node found).SpansTree source := by
  obtain ⟨_, all, lexed, _⟩ := whole_parse_ok reads spelled parsed
  obtain ⟨lexer, finished, _⟩ := Source.lex_of_lexed lexed
  refine ⟨congrArg Prod.fst finished, fun inner inside => ?_⟩
  obtain ⟨s', read⟩ := run_ok.mp parsed
  obtain ⟨s₁, s₂, opens, spans, _⟩ := whole_spans each read
  obtain ⟨stands, here, options₁⟩ := stands_behind_sof finished opens
  exact inside_spans finished stands here (by rw [options₁, located]) .stay spans inside

theorem document_taken {document : Document} {lexer : Lexer} {child node : Node}
    (parsed : Document.parse source options = .ok document) (finished : source.lex = (none, lexer))
    (member : child ∈ document.definitions.map .definition) (inside : node.Inside child) :
    ∃ front taken next behind,
      lexer.significant = .sof :: front ++ taken ++ next :: behind ∧
        node.ReadFrom source taken ∧ LaidOut source node.children taken := by
  obtain ⟨s', read⟩ := run_ok.mp parsed
  obtain ⟨s₁, s₂, opens, row, _⟩ := document_row read
  obtain ⟨stands, here, options₁⟩ := stands_behind_sof finished opens
  obtain ⟨s₃, s₄, reaches, spans⟩ := row.spans member
  rw [← here]
  exact stands.inside (by rw [options₁, located]) reaches spans inside

theorem document_spansTree {document : Document}
    (parsed : Document.parse source options = .ok document) :
    (Node.document document).SpansTree source := by
  obtain ⟨_, all, _, lexed, _⟩ := Document.parse_ok parsed
  obtain ⟨lexer, finished, _⟩ := Source.lex_of_lexed lexed
  refine ⟨congrArg Prod.fst finished, fun node inside => ?_⟩
  cases inside with
  | self =>
      obtain ⟨s', read⟩ := run_ok.mp parsed
      obtain ⟨s₁, s₂, opens, row, closes, loc⟩ := document_row read
      obtain ⟨stands, here, options₁⟩ := stands_behind_sof finished opens
      have conforms := (Document.conforms_of_parse parsed).1
      simp only [Document.conforms, Bool.and_eq_true, Bool.not_eq_true',
        List.isEmpty_eq_false_iff] at conforms
      exact spans_document finished located conforms.1.1 stands here options₁ row closes loc
  | child member inside =>
      obtain ⟨front, taken, next, behind, all, readFrom, laidOut⟩ :=
        document_taken located parsed finished member inside
      exact spans_of_readFrom finished all readFrom laidOut

/-- Whatever a source is parsed as with locations, everything in it has its span. -/
theorem parse_spansTree (source : Source) :
    (∀ document, Document.parse source options = .ok document →
      (Node.document document).SpansTree source) ∧
    (∀ value, Value.parse source options = .ok value → (Node.value value).SpansTree source) ∧
    (∀ value, Value.parseConst source options = .ok value →
      (Node.value value).SpansTree source) ∧
    (∀ type, TypeRef.parse source options = .ok type → (Node.type type).SpansTree source) := by
  refine ⟨?_, ?_, ?_, ?_⟩
  · intro document parsed
    exact document_spansTree located parsed
  · intro value parsed
    exact whole_spansTree located (value_reads false _) (value_spans false _) Value.spelled parsed
  · intro value parsed
    exact whole_spansTree located (value_reads true _) (value_spans true _) Value.spelled parsed
  · intro type parsed
    exact whole_spansTree located (typeRef_reads _) (typeRef_spans _) TypeRef.spelled parsed

end

/-- A type with a description over two lines, directives and a list in its arguments. -/
theorem parse_spansTree_described :
    let source := Source.ofBody "\"\"\"a\nb\"\"\"\r\ntype T @d(v: [1, \x7b\x7d]) \x7b f(a: [T!]! = []): T # f\n\x7d"
    Options.default.noLocation = false ∧
      ∃ document, Document.parse source Options.default = .ok document ∧
        (Node.document document).SpansTree source := by
  intro source
  have parses : (Document.parse source Options.default).isOk = true := by decide +kernel
  cases parsed : Document.parse source Options.default with
  | error _ => simp [parsed, Except.isOk, Except.toBool] at parses
  | ok document => exact ⟨rfl, document, rfl, (parse_spansTree rfl source).1 document parsed⟩

end GraphQL

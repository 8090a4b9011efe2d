import GraphQL.Proofs.Lexical.Faults
import GraphQL.Proofs.Parser.Pairs.Alone
import GraphQL.Proofs.Upcoming

/-!
Where errors stand. Every error that reading or parsing can give stands between two characters of
its source and never inside the break of a line, and has the position that belongs to its offset.
-/

namespace GraphQL

/-- The offset cuts the source, and not inside the break of a line. -/
def Source.HasPlace (source : Source) (offset : Nat) : Prop :=
  ∃ before after, source.Cut before after ∧ offset = byteLength before

/-- The error stands at a place of the source and has its position. -/
def SyntaxError.StandsIn (error : SyntaxError) (source : Source) : Prop :=
  source.HasPlace error.offset ∧ error.position = source.locationOf error.offset

/-- The error stands in the source, and so does all that its notes point at. -/
structure SyntaxError.MarksIn (error : SyntaxError) (source : Source) : Prop where
  standsIn : error.StandsIn source
  notes : ∀ note ∈ error.notes, ∀ position ∈ note.position,
    ∃ offset, position = source.locationOf offset

theorem SyntaxError.MarksIn.located {source : Source} {error : SyntaxError}
    (marksIn : error.MarksIn source) {position : Position} (marked : position ∈ error.marks) :
    ∃ offset, position = source.locationOf offset := by
  rcases List.mem_cons.mp marked with rfl | noted
  · exact ⟨_, marksIn.standsIn.2⟩
  · obtain ⟨note, member, pointed⟩ := List.mem_filterMap.mp noted
    exact marksIn.notes note member position pointed

theorem Source.hasPlace_zero (source : Source) : source.HasPlace 0 :=
  ⟨[], source.chars, ⟨rfl, by rintro ⟨⟨⟩, _⟩⟩, rfl⟩

theorem Source.Cut.of_head {source : Source} {before after : List Char}
    (whole : source.chars = before ++ after) (noFeed : after.head? ≠ some '\n') :
    source.Cut before after :=
  ⟨whole, fun parts => noFeed parts.2⟩

theorem Complaint.marksIn {source : Source} {token : Token} (place : source.HasPlace token.start)
    (complaint : Complaint) : (complaint.error source token).MarksIn source where
  standsIn := ⟨place, rfl⟩
  notes note member position marked := by
    cases complaint with
    | reservedFragmentName | reservedEnumValue _ | misplacedDescription =>
        rw [List.mem_singleton.mp member] at marked
        cases marked
    | _ => cases member

theorem Lexical.Fault.error_offset {source : Source} {start here : Cursor} {fault : Fault}
    (other : fault ≠ .danglingEscape) : (fault.error source start here).offset = here.offset := by
  cases fault with
  | danglingEscape => exact absurd rfl other
  | _ => rfl

namespace Scan.StandsBehind

variable {source : Source} {behind : List Char} {scan next : Scan} {prev : Nat}
  (stands : scan.StandsBehind source behind)
include stands

theorem hasPlace_of_read {token : Token} (read : scan.read source prev = (.ok token, next)) :
    source.HasPlace token.start := by
  obtain ⟨gap, slice, _, moved, covers, _⟩ := stands.read_token read
  refine ⟨behind ++ gap, slice ++ next.rest, .of_head ?_ ?_, covers.start⟩
  · rw [← List.append_assoc, moved.whole]
  · intro isFeed
    obtain ⟨rest, ahead⟩ := List.head?_eq_some_iff.mp isFeed
    have read := covers.read
    rw [ahead] at read
    cases read

theorem marksIn_of_read {error : SyntaxError}
    (failed : scan.read source prev = (.error error, next)) : error.MarksIn source := by
  obtain ⟨rfl, fault, outcome, rfl⟩ := Scan.read_failed failed
  have begun := stands.skipIgnored
  have ended := begun.consume (Lexical.lexeme scan.skipIgnored.rest).size
  have kept : ∀ c ∈ scan.skipIgnored.rest.head?, isIgnored c = false := by
    rw [rest_skipIgnored]
    exact Lexical.halts_dropWhile _
  have apart : ¬PartsReturn (behind ++ scan.rest.takeWhile isIgnored) scan.skipIgnored.rest :=
    fun parts => Bool.false_ne_true (kept '\n' parts.2).symm
  refine ⟨⟨?_, ?_⟩, ?_⟩
  · by_cases dangling : fault = .danglingEscape
    · -- The only fault behind the place where its reading stops is at the end of the text.
      subst dangling
      have last : (scan.skipIgnored.consume (Lexical.lexeme scan.skipIgnored.rest).size).rest =
          ['\\'] := Lexical.lexeme_dangling outcome
      refine ⟨_, [], .of_head (by rw [ended.whole, last, List.append_nil]) (by simp), ?_⟩
      rw [byteLength_append, ← ended.offset]
      rfl
    · rw [Lexical.Fault.error_offset dangling, ended.offset]
      exact ⟨_, _, ⟨ended.whole, Lexical.apart_append apart (Lexical.lexeme_apart _)⟩, rfl⟩
  · cases fault <;> rfl
  · intro note member position marked
    cases fault with
    | danglingEscape =>
        rw [List.mem_singleton.mp member] at marked
        cases marked
        exact ⟨_, rfl⟩
    | unterminated =>
        rw [List.mem_singleton.mp member] at marked
        cases marked
        exact ⟨_, by rw [begun.position, Source.locationOf_byteLength begun.whole]⟩
    | incompleteSpread =>
        rw [List.mem_singleton.mp member] at marked
        cases marked
    | _ => cases member

end Scan.StandsBehind

namespace TokenStream

def ItemStandsIn (source : Source) : Except SyntaxError Token → Prop
  | .ok token => source.HasPlace token.start
  | .error error => error.MarksIn source

structure StandsIn (stream : TokenStream) (source : Source) : Prop where
  items : ∀ item ∈ stream.items, ItemStandsIn source item
  ending : ItemStandsIn source stream.ending

variable {source : Source}

theorem StandsIn.next {stream : TokenStream} (stands : stream.StandsIn source) :
    ItemStandsIn source stream.next.1 ∧ stream.next.2.StandsIn source := by
  obtain ⟨items, ending⟩ := stream
  cases items with
  | nil => exact ⟨stands.ending, stands⟩
  | cons item rest =>
      constructor
      · exact stands.items item List.mem_cons_self
      · exact ⟨fun other member => stands.items other (List.mem_cons_of_mem _ member),
          stands.ending⟩

theorem StandsIn.cons {stream : TokenStream} (stands : stream.StandsIn source)
    {item : Except SyntaxError Token} (here : ItemStandsIn source item) :
    (stream.cons item).StandsIn source :=
  ⟨List.forall_mem_cons.mpr ⟨here, stands.items⟩, stands.ending⟩

theorem StandsIn.significant {stream : TokenStream} (stands : stream.StandsIn source) :
    stream.significant.StandsIn source :=
  ⟨fun item member => stands.items item (List.mem_filter.mp member).1, stands.ending⟩

theorem itemStandsIn_read {behind : List Char} {scan : Scan}
    (stands : scan.StandsBehind source behind) (prev : Nat) :
    ItemStandsIn source (scan.read source prev).1 := by
  cases read : scan.read source prev with
  | mk answer next =>
      cases answer with
      | ok token => exact stands.hasPlace_of_read read
      | error error => exact stands.marksIn_of_read read

theorem standsIn_ofScan {behind : List Char} {scan : Scan}
    (stands : scan.StandsBehind source behind) (prev reads : Nat) :
    (ofScan source prev scan reads).StandsIn source := by
  have none : ∀ item ∈ ([] : List (Except SyntaxError Token)), ItemStandsIn source item :=
    List.forall_mem_nil _
  induction reads generalizing behind scan prev with
  | zero => exact ⟨none, itemStandsIn_read stands prev⟩
  | succ reads ih =>
      have here := itemStandsIn_read stands prev
      obtain ⟨more, onward⟩ := stands.read prev
      unfold ofScan
      split
      · rename_i token next read
        rw [read] at here onward
        split
        · exact ⟨none, here⟩
        · exact (ih onward (prev + 1)).cons here
      · rename_i error next read
        rw [read] at here onward
        split
        · exact (ih onward prev).cons here
        · exact ⟨none, here⟩

theorem standsIn_ofSource (source : Source) : (ofSource source).StandsIn source :=
  standsIn_ofScan (.ofSource source) 0 source.chars.length

end TokenStream

namespace Parser

/-- A parser that is at a place of its source, with nothing but places ahead. -/
structure State.StandsIn (s : State) (source : Source) : Prop where
  reads : s.source = source
  current : source.HasPlace s.current.start
  upcoming : s.upcoming.StandsIn source

variable {source : Source} {s : State}

namespace State.StandsIn

theorem complaint (stands : s.StandsIn source) {token : Token} (place : source.HasPlace token.start)
    (complaint : Complaint) : (complaint.error s.source token).MarksIn source := by
  rw [stands.reads]
  exact complaint.marksIn place

theorem movedTo (stands : s.StandsIn source) {token : Token} {rest : TokenStream}
    (next : s.upcoming.next = (.ok token, rest)) : (s.movedTo token rest).StandsIn source := by
  have ahead := stands.upcoming.next
  rw [next] at ahead
  exact ⟨stands.reads, ahead.1, ahead.2⟩

theorem read (stands : s.StandsIn source) {error : SyntaxError} {rest : TokenStream}
    (next : s.upcoming.next = (.error error, rest)) : error.MarksIn source := by
  have ahead := stands.upcoming.next
  rw [next] at ahead
  exact ahead.1

theorem atDepth (stands : s.StandsIn source) (depth : Nat) : (s.atDepth depth).StandsIn source :=
  ⟨stands.reads, stands.current, stands.upcoming⟩

end State.StandsIn

/-- A run stands at places of its source and comes to errors that do so. -/
theorem alone_standsIn (source : Source) :
    Alone (·.StandsIn source) (source.HasPlace ·.start) (·.MarksIn source) where
  current stands := stands.current
  moves {s} stands := by
    have steps := advanced s
    generalize advance s = outcome at steps ⊢
    cases steps with
    | failed next => exact stands.read next
    | ended next ends => exact stands.movedTo next
    | counted next goesOn within =>
        have moved := stands.movedTo next
        exact ⟨moved.reads, moved.current, moved.upcoming⟩
    | exceeded next goesOn limited beyond => exact stands.complaint (stands.movedTo next).current _
  looks {s} stands := by
    have steps := looked s
    generalize lookahead s = outcome at steps ⊢
    cases steps with
    | ended ends => exact stands.current
    | failed goesOn next => exact stands.read next
    | shown goesOn next => exact (stands.movedTo next).current
  atDepth stands depth := stands.atDepth depth
  fails stands place _ := stands.complaint place _

theorem standsIn_ofSource (source : Source) (options : Options) :
    (State.ofSource source options).StandsIn source where
  reads := rfl
  current := source.hasPlace_zero
  upcoming := (TokenStream.standsIn_ofSource source).significant

end Parser

section
variable {source : Source} {options : Options} {error : SyntaxError}
  (failed : Document.parse source options = .error error ∨
    Value.parse source options = .error error ∨
    Value.parseConst source options = .error error ∨
    TypeRef.parse source options = .error error)
include failed

theorem parse_error_marksIn : error.MarksIn source :=
  have alone := Parser.alone_standsIn source
  alone.parse_error (alone.moves (Parser.standsIn_ofSource source options)) failed

/-- Whatever a source is parsed as, the error stands at a place of it. -/
theorem parse_error_standsIn : error.StandsIn source := (parse_error_marksIn failed).standsIn

end

end GraphQL

import GraphQL.Proofs.Parser.Paid
import GraphQL.Proofs.Parser.Programs.Document
import GraphQL.Proofs.Parser.Reached
import GraphQL.Proofs.Parser.Spans.Document

/-!
Parsers end. Every item of a loop moves past a token of the text, and never past its end, so that a
run begins no more items than there are tokens left, and one more at most where it fails in a loop
that is open. The same holds for the nodes that productions open which call themselves.
-/

namespace GraphQL.Parser

/-! Items. -/

/-- A parser that succeeds only by moving forward: it moves past tokens of the text, one at least,
which are then no longer left. At the end of the text it fails. -/
structure Progresses (parser : Parser α) (s : State) : Prop where
  onward {found : α} {s' : State} (parsed : parser s = .ok found s') :
    ∃ passed, Moves s passed s' ∧ passed ≠ [] ∧ AllSpelled passed ∧
      s'.left + passed.length = s.left
  fails (ends : s.current.lexeme = .eof) : succeeded (parser s) = false

theorem progresses_of_moves {parser : Parser α} {s : State} (sane : s.Sane)
    (onward : ∀ {found s'}, parser s = .ok found s' →
      ∃ passed, Moves s passed s' ∧ passed ≠ [] ∧ AllSpelled passed) : Progresses parser s where
  onward parsed := by
    obtain ⟨passed, moves, some', spelled⟩ := onward parsed
    exact ⟨passed, moves, some', spelled, moves.left spelled sane⟩
  fails ends := by
    cases ran : parser s with
    | error _ _ => rfl
    | ok found s' =>
        obtain ⟨passed, moves, some', spelled⟩ := onward ran
        obtain ⟨first, rest, rfl⟩ := List.exists_cons_of_ne_nil some'
        obtain ⟨isSpelled, _⟩ := allSpelled_cons.mp spelled
        rw [← moves.head, ends] at isSpelled
        cases isSpelled

theorem IsItem.progresses {levels : Nat} {item : Parser α} (isItem : IsItem levels item) {s : State}
    (sane : s.Sane) : Progresses item s := by
  have located {node : α → Node} (reads : ReadsNode item node) : Progresses item s :=
    progresses_of_moves sane fun parsed => by
      cases reads parsed with
      | node _ moves spelled some' _ => exact ⟨_, moves, some', spelled.allSpelled⟩
  cases isItem with
  | definition => exact located definition_spans
  | selection => exact located (selection_spans (selectionSet_spans levels))
  | variableDefinition => exact located variableDefinition_spans
  | argument isConst => exact located argument_spans
  | directive isConst => exact located directive_spans
  | value isConst => exact located (value_spans isConst levels)
  | objectField isConst =>
      refine progresses_of_moves sane fun {found s'} parsed => ?_
      obtain ⟨moves, _⟩ := objectField_reads (value_reads isConst levels) rfl parsed
      exact ⟨_, moves, by cases found; exact List.cons_ne_nil _ _, found.spelled⟩
  | operationTypeDefinition => exact located operationTypeDefinition_spans
  | fieldDefinition => exact located fieldDefinition_spans
  | inputValueDefinition => exact located inputValueDefinition_spans
  | enumValueDefinition => exact located enumValueDefinition_spans
  | namedType => exact located namedType_spans
  | directiveLocation => exact located directiveLocation_spans

/-! Runs. -/

/-- A run comes to its end, with rounds and levels to spare. It has begun no more items of loops
than it has moved past tokens, or one more while a loop is open, and no loop is open where it
succeeded. So it is with nodes. -/
def Program.Completes {levels : Nat} {pace : Pace} {parser : Parser α}
    (program : Program levels pace parser) (s : State) : Prop :=
  ∃ work, program.work s = some work ∧ ∀ tally ∈ [work.items, work.nodes],
    tally.begun + (stopped (parser s)).left ≤ s.left + min 1 tally.unfinished ∧
      (succeeded (parser s) = true → tally.unfinished = 0)

theorem Tally.Paid.within_left {terms : Terms} {before after : Nat} {finished : Bool}
    {tally : Tally} (paid : Tally.Paid terms before after finished tally)
    (most : terms.credit ≤ 1) :
    tally.begun + after ≤ before + min 1 tally.unfinished ∧
      (finished = true → tally.unfinished = 0) := by
  cases finished
  · have bound : tally.begun + after ≤ before + min terms.credit tally.unfinished := paid
    exact ⟨by omega, nofun⟩
  · obtain ⟨closed, bound⟩ := paid
    exact ⟨by omega, fun _ => closed⟩

/-- Programs complete where the levels cannot be used up, either because no more nodes may be open,
or because there are more levels than tokens left. -/
theorem Program.completes {levels : Nat} {pace : Pace} {parser : Parser α} {s : State}
    (program : Program levels pace parser) (sane : s.Sane)
    (enough : s.options.maxNestingDepth ≤ s.depth + levels ∨ s.left < levels) :
    program.Completes s := by
  obtain ⟨_, mostItems, mostNodes⟩ := pace.terms_le
  have spare : Suffices levels pace s := enough.imp_right fun few => by omega
  obtain ⟨work, counted, _, items, nodes⟩ := program.finishes sane spare
  refine ⟨work, counted, fun tally member => ?_⟩
  rcases List.mem_cons.mp member with rfl | member
  · exact items.within_left mostItems
  · obtain rfl := List.mem_singleton.mp member
    exact nodes.within_left mostNodes

theorem State.Reached.askAll {source : Source} {options : Options} (productions : List Production) :
    ∀ {s : State}, s.Reached source options → (s.askAll productions).2.Reached source options := by
  induction productions with
  | nil => exact id
  | cons first rest ih =>
      intro s reached
      refine ih ?_
      show (s.ask first).2.Reached source options
      have behind := (first.program s.options.maxNestingDepth).reached reached
      unfold State.ask
      cases ran : first.parser s.options.maxNestingDepth s <;> rwa [ran] at behind

/-- In every state of a parser, what loops repeat moves past a token of the text at least and never
past its end, and fails at the end. Whatever the parser is asked for, it completes, be it that the
levels are as many as may open or that they are more than the tokens left. It can be asked for more
where that stopped. -/
theorem completes_within_left {source : Source} {options : Options} {s : State}
    (reached : s.Reached source options) :
    (∀ (levels : Nat) {α : Type} {item : Parser α}, IsItem levels item → Progresses item s) ∧
      (∀ levels, s.options.maxNestingDepth ≤ s.depth + levels ∨ s.left < levels →
        ∀ production : Production, (production.program levels).Completes s ∧
          (production.program levels).whole.Completes s) ∧
      ∀ productions, (s.askAll productions).2.Reached source options :=
  ⟨fun _ _ _ isItem => isItem.progresses reached.sane,
    fun levels enough production => ⟨(production.program levels).completes reached.sane enough,
      (production.program levels).whole.completes reached.sane enough⟩,
    fun productions => reached.askAll productions⟩

/-- A text that breaks off in the list of an argument. Six items are begun, of which the definition,
the field, the argument and a value are missing their ends, over eight tokens. -/
theorem completes_within_left_unclosed :
    let source := Source.ofBody "\x7b a(b: [1 2"
    let s := State.ofSource source .default
    s.Reached source .default ∧ s.left = 8 ∧
      (Production.document.program 9).work s = some ⟨⟨6, 4⟩, ⟨5, 3⟩⟩ ∧
      (Production.document.program 9).Completes s := by
  intro source s
  have reached : s.Reached source .default := .start
  have few : s.left = 8 := by decide +kernel
  refine ⟨reached, few, by decide +kernel, ?_⟩
  exact ((completes_within_left reached).2.1 9 (.inr (by omega)) .document).1

end GraphQL.Parser

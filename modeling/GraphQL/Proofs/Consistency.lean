import GraphQL.Parser.Production
import GraphQL.Proofs.Following
import GraphQL.Proofs.Parser.Pairs.Options
import GraphQL.Proofs.ReadsOn

/-!
Between the productions that a parser is asked for, also where they failed, no node is open and
the tokens up to the current one are counted. The parser never goes back.
-/

namespace GraphQL

theorem Lexer.run_append (lexer : Lexer) (calls more : List Call) :
    (lexer.run (calls ++ more)).2 = ((lexer.run calls).2.run more).2 := by
  induction calls generalizing lexer with
  | nil => rfl
  | cons first rest ih => exact ih (lexer.call first).2

namespace Parser

/-- A state that another one leads to: as many nodes are open under the same options, and a lexer
that the first state follows comes to one that the second state follows. -/
structure Accompanied (s s' : State) : Prop where
  options : s'.options = s.options
  depth : s'.depth = s.depth
  onward {lexer : Lexer} (follows : Follows lexer s) :
    ∃ calls, Follows (lexer.run calls).2 s' ∧
      lexer.current.index ≤ (lexer.run calls).2.current.index

namespace Accompanied

variable {s s₁ s' : State}

theorem refl (s : State) : Accompanied s s where
  options := rfl
  depth := rfl
  onward follows := ⟨[], follows, Nat.le_refl _⟩

theorem trans (first : Accompanied s s₁) (second : Accompanied s₁ s') : Accompanied s s' where
  options := second.options.trans first.options
  depth := second.depth.trans first.depth
  onward {lexer} follows := by
    obtain ⟨calls, between, later⟩ := first.onward follows
    obtain ⟨more, behind, latest⟩ := second.onward between
    refine ⟨calls ++ more, ?_⟩
    rw [lexer.run_append]
    exact ⟨behind, Nat.le_trans later latest⟩

theorem advance (s : State) : Accompanied s (stopped (Parser.advance s)) where
  options := by
    have steps := advanced s
    generalize Parser.advance s = outcome at steps
    cases steps <;> rfl
  depth := by
    have steps := advanced s
    generalize Parser.advance s = outcome at steps
    cases steps <;> rfl
  onward follows := ⟨[.advance], follows.advance⟩

theorem lookahead (s : State) : Accompanied s (stopped (Parser.lookahead s)) where
  options := by
    have steps := looked s
    generalize Parser.lookahead s = outcome at steps
    cases steps <;> rfl
  depth := by
    have steps := looked s
    generalize Parser.lookahead s = outcome at steps
    cases steps <;> rfl
  onward follows := by
    obtain ⟨behind, current⟩ := follows.lookahead
    exact ⟨[.lookahead], behind, Nat.le_of_eq (congrArg Token.index current.symm)⟩

theorem nested (inside : Accompanied s.opened s') : Accompanied s s'.closed where
  options := inside.options
  depth := by
    show s'.depth - 1 = s.depth
    rw [inside.depth]
    rfl
  onward follows := by
    obtain ⟨calls, behind, later⟩ := inside.onward (follows.atDepth _)
    exact ⟨calls, behind.atDepth _, later⟩

end Accompanied

def accompanied (options : Options) : Pairing where
  states s t := s.options = options ∧ True ∧ t = s.under options
  tokens := Eq
  errors := Eq
  levels := Eq
  relocate := id
  excused _ := False
  leads := Accompanied

theorem accompanied_optioned (options : Options) :
    (accompanied options).Optioned options options (fun _ => True) where
  states_iff := Iff.rfl
  tokens_iff := Iff.rfl
  keeps := .always
  relocate _ := rfl
  opened := Nat.succ.inj
  closed := id
  reads _ _ := rfl
  fails _ _ _ := rfl
  counts _ _ _ limited _ := .inr ⟨limited, rfl⟩
  fewer := .inl rfl
  nests _ _ := .inr ⟨rfl, rfl, fun _ => Eq.symm⟩
  atMost := Nat.le_refl _
  advance_leads s _ leads := leads.trans (.advance s)
  lookahead_leads s _ leads := leads.trans (.lookahead s)
  nested_leads inside _ leads := leads.trans (inside _ (.refl _)).nested

theorem accompanied_lawful (options : Options) : (accompanied options).Lawful :=
  (accompanied_optioned options).lawful

theorem accompanied_of_maps {change : α → α} {parser : Parser α} {s : State}
    (maps : (accompanied s.options).Maps change parser parser) :
    Accompanied s (stopped (parser s)) := by
  have outcome := maps s s ⟨rfl, trivial, rfl⟩
  cases parsed : parser s with
  | ok found s' =>
      rw [parsed] at outcome
      exact outcome.2.2 s (.refl s)
  | error e s' =>
      rw [parsed] at outcome
      exact outcome.1 s (.refl s)

theorem Production.accompanied (production : Production) (levels : Nat) (s : State) :
    Accompanied s (stopped (production.parser levels s)) := by
  have lawful := accompanied_lawful s.options
  have heads := (accompanied_optioned s.options).fragmentHeads rfl
  cases production <;> rw [Production.parser, stopped_map]
  case document => exact accompanied_of_maps (lawful.document_maps rfl heads)
  case definition => exact accompanied_of_maps (lawful.definition_maps rfl heads)
  case operation => exact accompanied_of_maps (lawful.operation_maps rfl)
  case fragment => exact accompanied_of_maps (lawful.fragment_maps rfl heads)
  case selectionSet => exact accompanied_of_maps (lawful.selectionSet_maps rfl)
  case name => exact accompanied_of_maps lawful.name_maps
  case value isConst => exact accompanied_of_maps (lawful.value_maps isConst rfl)
  case typeRef => exact accompanied_of_maps (lawful.typeRef_maps rfl)

theorem State.ask_accompanied (s : State) (production : Production) :
    Accompanied s (s.ask production).2 := by
  have onward := production.accompanied s.options.maxNestingDepth s
  unfold ask
  cases answered : production.parser s.options.maxNestingDepth s <;> rwa [answered] at onward

theorem State.askAll_accompanied (s : State) (productions : List Production) :
    Accompanied s (s.askAll productions).2 := by
  induction productions generalizing s with
  | nil => exact .refl s
  | cons first rest ih => exact (s.ask_accompanied first).trans (ih (s.ask first).2)

/-! Nodes that nest. -/

def closedBehind : EStateM.Result SyntaxError State α → EStateM.Result SyntaxError State α
  | .ok found after => .ok found after.closed
  | .error error after => .error error after.closed

/-- A production of nodes that nest, by levels, and what it parses between their ends. At the
limit it refuses. Below the limit it opens one more level for the body, and the body leaves that
level open, whether it succeeds or not, so there is one to be closed. -/
structure Nests (production body : (levels : Nat) → Parser α) : Prop where
  refuses {s : State} (levels : Nat) (full : s.options.maxNestingDepth ≤ s.depth) :
    production levels s = tooDeep s
  within {s : State} (free : s.depth < s.options.maxNestingDepth) :
    s.opened.depth ≤ s.opened.options.maxNestingDepth
  runs {s : State} (levels : Nat) (free : s.depth < s.options.maxNestingDepth) :
    production (levels + 1) s = closedBehind (body levels s.opened)
  leaves (s : State) (levels : Nat) : (stopped (body levels s.opened)).depth = s.depth + 1

theorem nests {production body : (levels : Nat) → Parser α} (first : production 0 = tooDeep)
    (later : ∀ levels, production (levels + 1) = nested (body levels))
    (keeps : ∀ levels s, Accompanied s (stopped (body levels s))) : Nests production body where
  refuses {s} levels full := by
    cases levels with
    | zero => rw [first]
    | succ levels => rw [later, nested, if_neg (Nat.not_lt.mpr full)]
  within free := free
  runs {s} levels free := by
    rw [later, nested, if_pos free]
    cases body levels s.opened <;> rfl
  leaves s levels := (keeps levels s.opened).depth

theorem selectionSet_nests :
    Nests selectionSet fun levels => selectionSetBody (selection (selectionSet levels) levels) := by
  refine nests rfl (fun _ => rfl) fun levels s => ?_
  have lawful := accompanied_lawful s.options
  exact accompanied_of_maps
    (lawful.selectionSetBody_maps (lawful.selection_maps (lawful.selectionSet_maps rfl) rfl))

theorem value_nests (isConst : Bool) :
    Nests (value isConst) fun levels => valueBody isConst (value isConst levels) := by
  refine nests rfl (fun _ => rfl) fun levels s => ?_
  have lawful := accompanied_lawful s.options
  exact accompanied_of_maps (lawful.valueBody_maps (lawful.value_maps isConst rfl) isConst)

theorem typeRef_nests : Nests typeRef fun levels => typeRefBody (typeRef levels) := by
  refine nests rfl (fun _ => rfl) fun levels s => ?_
  have lawful := accompanied_lawful s.options
  exact accompanied_of_maps (lawful.typeRefBody_maps (lawful.typeRef_maps rfl))

/-! Between productions. -/

/-- A parser between productions. No node is open, and it stands where some lexer stands, with the
same in front of it. Every lexer that has read as far has its current token at the same place, and
the tokens that count up to there are counted. -/
structure Consistent (source : Source) (s : State) : Prop where
  depth : s.depth = 0
  stands : ∃ calls : List Lexer.Call,
    let lexer := ((Lexer.ofSource source).run calls).2
    lexer.current = s.current ∧ lexer.last = s.last ∧ lexer.upcoming = s.upcoming ∧
      s.current.index < lexer.tokens.toList.length
  counts (calls : List Lexer.Call) :
    let tokens := ((Lexer.ofSource source).run calls).2.tokens.toList
    s.current.index < tokens.length → tokens[s.current.index]? = some s.current ∧
      s.tokenCount = (tokens.take (s.current.index + 1)).countP Token.counts

theorem Follows.consistent {source : Source} {calls : List Lexer.Call} {s : State}
    (follows : Follows ((Lexer.ofSource source).run calls).2 s) (none : s.depth = 0) :
    Consistent source s := by
  obtain ⟨clean, reached⟩ := follows.reached
  obtain ⟨passed, laid⟩ := follows.laid
  have here := laid.get_current reached
  have count := follows.tokenCount
  rw [Lexer.get?, ← Array.getElem?_toList] at here
  rw [Lexer.counted, ← List.countP_eq_length_filter] at count
  rw [← follows.current] at here count
  obtain ⟨inside, _⟩ := List.getElem?_eq_some_iff.mp here
  constructor
  · exact none
  · exact ⟨calls, follows.current.symm, follows.last.symm, follows.upcoming.symm, inside⟩
  · intro others tokens far
    have same := Lexer.run_tokens_eq source inside far
    constructor
    · rw [← List.getElem?_take_of_succ, ← same, List.getElem?_take_of_succ]
      exact here
    · rw [← same]
      exact count

/-- Whatever productions a parser is asked for, and whether they succeed or not, it is consistent
between them and never goes back. Nodes nest within the limit. -/
theorem askAll_consistent (source : Source) (options : Options) :
    (∀ before after : List Production,
      let s := ((State.ofSource source options).askAll before).2
      let s' := (s.askAll after).2
      Consistent source s ∧ Consistent source s' ∧ s.current.index ≤ s'.current.index) ∧
      Nests selectionSet (fun levels => selectionSetBody (selection (selectionSet levels) levels)) ∧
      (∀ isConst, Nests (value isConst) fun levels => valueBody isConst (value isConst levels)) ∧
      Nests typeRef fun levels => typeRefBody (typeRef levels) := by
  refine ⟨fun before after => ?_, selectionSet_nests, value_nests, typeRef_nests⟩
  have first := (State.ofSource source options).askAll_accompanied before
  have second := ((State.ofSource source options).askAll before).2.askAll_accompanied after
  obtain ⟨calls, follows, _⟩ := first.onward (follows_ofSource source options)
  obtain ⟨more, further, later⟩ := second.onward follows
  refine ⟨follows.consistent first.depth, ?_, ?_⟩
  · rw [← Lexer.run_append] at further
    exact further.consistent (second.depth.trans first.depth)
  · rw [follows.current, further.current]
    exact later

end Parser

end GraphQL

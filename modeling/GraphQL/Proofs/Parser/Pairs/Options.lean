import GraphQL.Proofs.Parser.Pairs.Document

/-!
Two runs over the same text under different options. Their states differ in nothing but the
options, so all that has to be told of two options is what becomes of locations and of the
errors that the limits give.
-/

namespace GraphQL.Parser

structure Kept (kept : State → Prop) : Prop where
  advance {s s' : State} (here : kept s) (moved : advance s = .ok () s') : kept s'
  atDepth {s : State} (here : kept s) (depth : Nat) : kept (s.atDepth depth)

theorem Kept.always : Kept fun _ => True := ⟨fun _ _ => trivial, fun _ _ => trivial⟩

/-- Two runs of which the first has `options`, and the second `other`, which may lift the limits.
All states of the first have something in common. -/
structure Pairing.Optioned (pair : Pairing) (options other : Options) (kept : State → Prop) :
    Prop where
  states_iff {s t : State} :
    pair.states s t ↔ s.options = options ∧ kept s ∧ t = s.under other
  tokens_iff {a b : Token} : pair.tokens a b ↔ a = b
  keeps : Kept kept
  relocate (loc : Location) : (if other.noLocation then none else some loc) =
    pair.relocate (if options.noLocation then none else some loc)
  opened {n m : Nat} (deeper : pair.levels (n + 1) (m + 1)) : pair.levels n m
  closed {n : Nat} (deepest : pair.levels n 0) : n = 0
  reads {s : State} {error : SyntaxError} {rest : TokenStream} (here : kept s)
    (failed : s.upcoming.next = (.error error, rest)) : pair.errors error error
  fails {complaint : Complaint} (grammar : complaint.isLimit = false) (source : Source)
    (token : Token) : pair.errors (complaint.error source token) (complaint.error source token)
  counts {s : State} {token : Token} {rest : TokenStream} {limit : Nat} (here : kept s)
    (next : s.upcoming.next = (.ok token, rest)) (goesOn : token.lexeme ≠ .eof)
    (limited : options.maxTokens = some limit) (beyond : limit < s.tokenCount + 1) :
    pair.excused (s.tooManyError token limit) ∨ other.maxTokens = some limit ∧
      pair.errors (s.tooManyError token limit) (s.tooManyError token limit)
  fewer : other.maxTokens = options.maxTokens ∨ other.maxTokens = none
  nests (source : Source) (token : Token) :
    pair.excused ((Complaint.tooDeep options.maxNestingDepth).error source token) ∨
      other.maxNestingDepth = options.maxNestingDepth ∧
        pair.errors ((Complaint.tooDeep options.maxNestingDepth).error source token)
          ((Complaint.tooDeep other.maxNestingDepth).error source token) ∧
        ∀ m, pair.levels 0 m → m = 0
  atMost : options.maxNestingDepth ≤ other.maxNestingDepth
  advance_leads (s : State) : pair.Onward s (stopped (advance s))
  lookahead_leads (s : State) : pair.Onward s (stopped (lookahead s))
  nested_leads {s s' : State} (inside : pair.Onward s.opened s') : pair.Onward s s'.closed

namespace Pairing.Optioned

variable {pair : Pairing} {options other : Options} {kept : State → Prop}
  (optioned : pair.Optioned options other kept)
include optioned

theorem advance_maps : pair.Maps id advance advance := by
  intro s t alike
  obtain ⟨rfl, here, rfl⟩ := optioned.states_iff.mp alike
  have leads := optioned.advance_leads s
  have onward {s' : State} (moved : advance s = .ok () s') (same : s'.options = s.options) :
      pair.states s' (s'.under other) :=
    optioned.states_iff.mpr ⟨same, optioned.keeps.advance here moved, rfl⟩
  have steps := advanced s
  cases moved : advance s with
  | error e s' =>
      rw [moved] at steps leads
      cases steps with
      | failed next =>
          have second : advance (s.under other) = _ := advance_eq_of_advanced (.failed next)
          rw [second]
          exact ⟨leads, .inr ⟨_, _, rfl, optioned.reads here next⟩⟩
      | exceeded next goesOn limited beyond =>
          rcases optioned.counts here next goesOn limited beyond with excused | ⟨also, same⟩
          · exact ⟨leads, .inl excused⟩
          · have second : advance (s.under other) = _ :=
              advance_eq_of_advanced (.exceeded next goesOn also beyond)
            rw [second]
            exact ⟨leads, .inr ⟨_, _, rfl, same⟩⟩
  | ok done s' =>
      rw [moved] at steps leads
      cases steps with
      | ended next ends =>
          have second : advance (s.under other) = _ := advance_eq_of_advanced (.ended next ends)
          rw [second]
          exact ⟨rfl, onward moved rfl, leads⟩
      | counted next goesOn within =>
          have also : ∀ limit, other.maxTokens = some limit → s.tokenCount + 1 ≤ limit := by
            intro limit limited
            rcases optioned.fewer with same | none
            · exact within limit (same ▸ limited)
            · rw [none] at limited
              cases limited
          have second : advance (s.under other) = _ :=
            advance_eq_of_advanced (.counted next goesOn also)
          rw [second]
          exact ⟨rfl, onward moved rfl, leads⟩

theorem lookahead_agree : pair.Agree pair.tokens lookahead lookahead := by
  intro s t alike
  have same := alike
  obtain ⟨rfl, here, rfl⟩ := optioned.states_iff.mp same
  have leads := optioned.lookahead_leads s
  have steps := looked s
  cases ahead : lookahead s with
  | error e s' =>
      rw [ahead] at steps leads
      cases steps with
      | failed goesOn next =>
          have second : lookahead (s.under other) = _ :=
            lookahead_eq_of_looked (.failed goesOn next)
          rw [second]
          exact ⟨leads, .inr ⟨_, _, rfl, optioned.reads here next⟩⟩
  | ok token s' =>
      rw [ahead] at steps leads
      cases steps with
      | ended ends =>
          have second : lookahead (s.under other) = _ := lookahead_eq_of_looked (.ended ends)
          rw [second]
          exact ⟨optioned.tokens_iff.mpr rfl, alike, leads⟩
      | shown goesOn next =>
          have second : lookahead (s.under other) = _ := lookahead_eq_of_looked (.shown goesOn next)
          rw [second]
          exact ⟨optioned.tokens_iff.mpr rfl, alike, leads⟩

theorem lawful : pair.Lawful where
  lexeme_eq twins := congrArg Token.lexeme (optioned.tokens_iff.mp twins)
  current_twins alike := by
    obtain ⟨_, _, rfl⟩ := optioned.states_iff.mp alike
    exact optioned.tokens_iff.mpr rfl
  fail_errors alike twins complaint grammar _ := by
    obtain ⟨_, _, rfl⟩ := optioned.states_iff.mp alike
    obtain rfl := optioned.tokens_iff.mp twins
    exact optioned.fails grammar _ _
  advance_maps := optioned.advance_maps
  lookahead_agree := optioned.lookahead_agree
  span_maps twins s t alike := by
    have same := alike
    obtain ⟨rfl, _, rfl⟩ := optioned.states_iff.mp same
    obtain rfl := optioned.tokens_iff.mp twins
    exact ⟨optioned.relocate _, alike, .stay⟩
  rounds_maps s t alike := by
    have same := alike
    obtain ⟨rfl, _, rfl⟩ := optioned.states_iff.mp same
    exact ⟨rfl, alike, .stay⟩
  opened := optioned.opened
  closed := optioned.closed
  deepest none alike := by
    obtain ⟨rfl, _, rfl⟩ := optioned.states_iff.mp alike
    rcases optioned.nests _ _ with excused | ⟨_, same, both⟩
    · exact .inl excused
    · exact .inr ⟨both _ none, same⟩
  full alike full := by
    obtain ⟨rfl, _, rfl⟩ := optioned.states_iff.mp alike
    rcases optioned.nests _ _ with excused | ⟨also, same, _⟩
    · exact .inl excused
    · exact .inr ⟨also ▸ full, same⟩
  opens alike free := by
    obtain ⟨rfl, here, rfl⟩ := optioned.states_iff.mp alike
    refine ⟨Nat.lt_of_lt_of_le free optioned.atMost, ?_⟩
    exact optioned.states_iff.mpr ⟨rfl, optioned.keeps.atDepth here _, rfl⟩
  closes alike := by
    obtain ⟨rfl, here, rfl⟩ := optioned.states_iff.mp alike
    exact optioned.states_iff.mpr ⟨rfl, optioned.keeps.atDepth here _, rfl⟩
  nested_leads _ inside := optioned.nested_leads inside

theorem fragmentHeads (same : other.fragmentVariables = options.fragmentVariables) :
    pair.FragmentHeads := by
  refine optioned.lawful.fragmentHeads fun s t alike => ?_
  have both := alike
  obtain ⟨rfl, _, rfl⟩ := optioned.states_iff.mp both
  exact ⟨same, alike, .stay⟩

theorem ofSource (source : Source) (here : kept (.ofSource source options)) :
    pair.states (.ofSource source options) (.ofSource source other) :=
  optioned.states_iff.mpr ⟨rfl, here, rfl⟩

end Pairing.Optioned

end GraphQL.Parser

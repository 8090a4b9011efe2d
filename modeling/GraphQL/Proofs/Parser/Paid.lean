import GraphQL.Proofs.Parser.Program

/-!
Whatever a program begins is paid for by the tokens that it moves past, and its loops and its
recursion come to their ends by themselves.
-/

namespace GraphQL.Parser

/-- What was begun on the way is paid for by the tokens that are no longer left. -/
def Tally.Paid (terms : Terms) (before after : Nat) (finished : Bool) (tally : Tally) : Prop :=
  if finished then tally.unfinished = 0 ∧ tally.begun + after + terms.spare ≤ before
  else tally.begun + after ≤ before + min terms.credit tally.unfinished

/-- Terms on which two runs can be one. -/
structure Terms.Chain (first next whole : Terms) : Prop where
  gains : whole.spare ≤ first.spare + next.spare
  starts : first.credit ≤ whole.credit
  ends : next.credit ≤ first.spare + whole.credit

theorem Pace.Chain.terms {first next whole : Pace} (chain : Pace.Chain first next whole) :
    Terms.Chain first.items next.items whole.items ∧
      Terms.Chain first.nodes next.nodes whole.nodes := by
  have still (terms : Terms) : Terms.Chain ⟨0, 0⟩ terms terms :=
    ⟨Nat.le_add_left _ _, Nat.zero_le _, Nat.le_add_left _ _⟩
  cases chain with
  | still => exact ⟨still _, still _⟩
  | onward | opening =>
      cases next <;>
        exact ⟨⟨by decide, by decide, by decide⟩, ⟨by decide, by decide, by decide⟩⟩
  | free =>
      cases first <;> cases next <;>
        exact ⟨⟨by decide, by decide, by decide⟩, ⟨by decide, by decide, by decide⟩⟩

theorem Pace.Within.terms {one other : Pace} (within : Pace.Within one other) :
    (other.items.spare ≤ one.items.spare ∧ one.items.credit ≤ other.items.credit) ∧
      other.nodes.spare ≤ one.nodes.spare ∧ one.nodes.credit ≤ other.nodes.credit := by
  cases within with
  | onward => cases other <;> decide
  | free => cases one <;> decide

/-- At any pace, a token is all that there is to spare, and all that can be owed. -/
theorem Pace.terms_le (pace : Pace) :
    pace.items.spare ≤ 1 ∧ pace.items.credit ≤ 1 ∧ pace.nodes.credit ≤ 1 := by
  cases pace <;> decide

namespace Tally.Paid

variable {terms first next whole : Terms} {before between after : Nat} {finished : Bool}
  {tally one other : Tally}

theorem zero (spent : after + (if finished then terms.spare else 0) ≤ before) :
    Tally.Paid terms before after finished 0 := by
  cases finished
  · exact Nat.le_add_right_of_le ((Nat.zero_add after).symm ▸ spent)
  · exact ⟨rfl, (Nat.zero_add after).symm ▸ spent⟩

theorem failed (chain : Terms.Chain first next whole)
    (paid : Tally.Paid first before after false tally) :
    Tally.Paid whole before after false tally := by
  have bound : tally.begun + after ≤ before + min first.credit tally.unfinished := paid
  have more := chain.starts
  show tally.begun + after ≤ before + min whole.credit tally.unfinished
  omega

theorem andThen (chain : Terms.Chain first next whole)
    (starts : Tally.Paid first before between true one)
    (ends : Tally.Paid next between after finished other) :
    Tally.Paid whole before after finished (one + other) := by
  obtain ⟨closed, bound⟩ := starts
  obtain ⟨spare, _, credit⟩ := chain
  cases finished
  · have rest : other.begun + after ≤ between + min next.credit other.unfinished := ends
    show one.begun + other.begun + after ≤
      before + min whole.credit (one.unfinished + other.unfinished)
    omega
  · obtain ⟨alsoClosed, rest⟩ := ends
    refine ⟨?_, ?_⟩
    · show one.unfinished + other.unfinished = 0
      omega
    · show one.begun + other.begun + after + whole.spare ≤ before
      omega

theorem within (less : next.spare ≤ first.spare) (more : first.credit ≤ next.credit)
    (paid : Tally.Paid first before after finished tally) :
    Tally.Paid next before after finished tally := by
  cases finished
  · have bound : tally.begun + after ≤ before + min first.credit tally.unfinished := paid
    show tally.begun + after ≤ before + min next.credit tally.unfinished
    omega
  · exact ⟨paid.1, Nat.le_trans (Nat.add_le_add_left less _) paid.2⟩

theorem around (paid : Tally.Paid ⟨1, 0⟩ before after finished tally) :
    Tally.Paid ⟨0, 1⟩ before after finished (tally.around finished) := by
  cases finished
  · have bound : tally.begun + after ≤ before + min 0 tally.unfinished := paid
    show tally.begun + 1 + after ≤ before + min 1 (tally.unfinished + 1)
    omega
  · obtain ⟨closed, bound⟩ := paid
    have spent : tally.begun + after + 1 ≤ before := bound
    refine ⟨closed, ?_⟩
    show tally.begun + 1 + after + 0 ≤ before
    omega

end Tally.Paid

structure Leads (s s' : State) : Prop where
  sane : s'.Sane
  options : s'.options = s.options
  depth : s'.depth = s.depth

/-- What a run comes to, and what it does on the way. -/
structure Bounded (pace : Pace) (s : State) (result : EStateM.Result SyntaxError State α)
    (work : Work) : Prop where
  leads : Leads s (stopped result)
  items : work.items.Paid pace.items s.left (stopped result).left (succeeded result)
  nodes : work.nodes.Paid pace.nodes s.left (stopped result).left (succeeded result)

/-- A parser comes to its end from a state, and what it does is bounded. -/
def Finishes (pace : Pace) (parser : Parser α) (count : Count) (s : State) : Prop :=
  ∃ work, count s = some work ∧ Bounded pace s (parser s) work

/-- Levels that a parser cannot use up. Either there are as many as may open, or there are more of
them than tokens to move past before each of them. -/
def Suffices (levels : Nat) (pace : Pace) (s : State) : Prop :=
  s.options.maxNestingDepth ≤ s.depth + levels ∨ s.left + pace.nodes.credit ≤ levels

section
variable {levels : Nat} {pace one other : Pace} {s s₁ s₂ : State}

theorem Leads.trans (first : Leads s s₁) (next : Leads s₁ s₂) : Leads s s₂ where
  sane := next.sane
  options := next.options.trans first.options
  depth := next.depth.trans first.depth

theorem Bounded.nothing {result : EStateM.Result SyntaxError State α}
    (leads : Leads s (stopped result))
    (spent : (stopped result).left + (if succeeded result then pace.items.spare else 0) ≤ s.left) :
    Bounded pace s result 0 where
  leads := leads
  items := .zero spent
  nodes := by
    have less : pace.nodes.spare ≤ pace.items.spare := by cases pace <;> decide
    refine .zero (Nat.le_trans (Nat.add_le_add_left ?_ _) spent)
    split
    · exact less
    · exact Nat.le_refl 0

theorem Finishes.nothing {parser : Parser α} (bounded : Bounded pace s (parser s) 0) :
    Finishes pace parser .nothing s := ⟨0, rfl, bounded⟩

theorem Finishes.spare {parser : Parser α} {count : Count} {part : α}
    (finishes : Finishes pace parser count s) (ran : parser s = .ok part s₁) :
    Leads s s₁ ∧ s₁.left + pace.items.spare ≤ s.left ∧ s₁.left + pace.nodes.spare ≤ s.left := by
  obtain ⟨work, _, bounded⟩ := finishes
  rw [ran] at bounded
  obtain ⟨leads, ⟨_, items⟩, ⟨_, nodes⟩⟩ := bounded
  have same : (stopped (.ok part s₁ : EStateM.Result SyntaxError State α)).left = s₁.left := rfl
  exact ⟨leads, by omega, by omega⟩

theorem Finishes.andThen {first : Parser α} {next : α → Parser β} {count : Count}
    {counts : α → Count} (chain : Pace.Chain one other pace)
    (starts : Finishes one first count s)
    (goesOn : ∀ part s₁, first s = .ok part s₁ → Finishes other (next part) (counts part) s₁) :
    Finishes pace (first >>= next) (.andThen first count counts) s := by
  obtain ⟨work, counted, leads, items, nodes⟩ := starts
  unfold Finishes Count.andThen
  show ∃ all, _ ∧ Bounded pace s (EStateM.bind first next s) all
  unfold EStateM.bind
  cases ran : first s with
  | error error s₁ =>
      rw [ran] at leads items nodes
      exact ⟨work, by rw [counted], leads, items.failed chain.terms.1, nodes.failed chain.terms.2⟩
  | ok part s₁ =>
      rw [ran] at leads items nodes
      obtain ⟨more, alsoCounted, further, moreItems, moreNodes⟩ := goesOn part s₁ ran
      refine ⟨work + more, by simp only [counted, alsoCounted, Option.map_some], ?_, ?_, ?_⟩
      · exact leads.trans further
      · exact items.andThen chain.terms.1 moreItems
      · exact nodes.andThen chain.terms.2 moreNodes

/-! Single steps. -/

theorem advance_leads (sane : s.Sane) : Leads s (stopped (advance s)) := by
  have further := sane.advance
  have steps := advanced s
  generalize advance s = outcome at steps further
  cases steps <;> exact ⟨further, rfl, rfl⟩

theorem advance_onward (sane : s.Sane) (spelled : s.current.lexeme.isSpelled = true) :
    Bounded pace s (advance s) 0 := by
  refine .nothing (advance_leads sane) ?_
  have less := advance_left_le sane
  cases moved : advance s with
  | ok done s₁ =>
      have passed := advance_left sane moved
      rw [if_pos spelled] at passed
      have most := pace.terms_le.1
      show s₁.left + pace.items.spare ≤ s.left
      omega
  | error _ s₁ =>
      rw [moved] at less
      exact less

theorem advance_still (sane : s.Sane) : Bounded .still s (advance s) 0 := by
  refine .nothing (advance_leads sane) ?_
  have none : (if succeeded (advance s) then Pace.still.items.spare else 0) = 0 := by split <;> rfl
  rw [none]
  exact advance_left_le sane

theorem Bounded.stay {result : EStateM.Result SyntaxError State α} (sane : s.Sane)
    (stays : stopped result = s) (fails : succeeded result = false ∨ pace.items.spare = 0) :
    Bounded pace s result 0 := by
  refine .nothing (by rw [stays]; exact ⟨sane, rfl, rfl⟩) ?_
  rcases fails with fails | none
  · simp [stays, fails]
  · simp [stays, none]

theorem Bounded.map {parser : Parser α} {work : Work} (change : α → β)
    (bounded : Bounded pace s (parser s) work) : Bounded pace s ((change <$> parser) s) work := by
  show Bounded pace s (EStateM.map change parser s) work
  unfold EStateM.map
  cases ran : parser s with
  | ok part s₁ | error error s₁ =>
      rw [ran] at bounded
      exact ⟨bounded.leads, bounded.items, bounded.nodes⟩

theorem Finishes.map {parser : Parser α} {count : Count} (change : α → β)
    (finishes : Finishes pace parser count s) : Finishes pace (change <$> parser) count s := by
  obtain ⟨work, counted, bounded⟩ := finishes
  exact ⟨work, counted, bounded.map change⟩

theorem Step.bounded {parser : Parser α} (step : Step pace parser) (sane : s.Sane) :
    Bounded pace s (parser s) 0 := by
  induction step with
  | pure | current | span | allowsFragmentVariables => exact .stay sane rfl (.inr rfl)
  | fail | unexpected => exact .stay sane rfl (.inl rfl)
  | advance => exact advance_still sane
  | lookahead =>
      have steps := looked s
      generalize Parser.lookahead s = outcome at steps
      cases steps with
      | ended _ | shown _ _ => exact .stay sane rfl (.inr rfl)
      | failed _ next =>
          exact .nothing ⟨sane.failed next, rfl, rfl⟩ (Nat.le_of_eq (State.left_failed next))
  | @expect kind spelled =>
      unfold Parser.expect
      rw [current_eq]
      split
      · rename_i here
        exact advance_onward sane (Token.isSpelled_of_kind here spelled)
      · exact .stay sane rfl (.inl rfl)
  | expectMark kind =>
      unfold Parser.expect
      rw [current_eq]
      split
      · exact advance_still sane
      · exact .stay sane rfl (.inl rfl)
  | expectKeyword keyword =>
      unfold Parser.expectKeyword
      rw [current_eq]
      split
      · rename_i here
        exact advance_onward sane (by rw [here]; rfl)
      · exact .stay sane rfl (.inl rfl)
  | accept kind =>
      unfold Parser.accept
      rw [current_eq]
      split
      · have moved := (advance_still sane).map fun _ => true
        exact moved
      · exact .stay sane rfl (.inr rfl)
  | map change _ ih => exact ih.map change

theorem Offer.outcome {offered : Parser Bool} (offer : Offer offered) (sane : s.Sane) :
    offered s = .ok false s ∨
      Bounded .onward s (offered s) 0 ∧ ∀ s₁, offered s ≠ .ok false s₁ := by
  have taken (spelled : s.current.lexeme.isSpelled = true) :
      let moved := (do advance; return true : Parser Bool) s
      Bounded .onward s moved 0 ∧ ∀ s₁, moved ≠ .ok false s₁ := by
    refine ⟨(advance_onward sane spelled).map fun _ => true, fun s₁ same => ?_⟩
    obtain ⟨_, _, _, refused⟩ := bind_ok same
    cases refused
  cases offer with
  | accept spelled =>
      unfold Parser.accept
      rw [current_eq]
      split
      · rename_i here
        exact .inr (taken (Token.isSpelled_of_kind here spelled))
      · exact .inl rfl
  | acceptKeyword keyword =>
      unfold Parser.acceptKeyword
      rw [current_eq]
      split
      · rename_i here
        exact .inr (taken (by rw [here]; rfl))
      · exact .inl rfl

/-! Programs. -/

theorem Suffices.behind (enough : Suffices levels pace s) (leads : Leads s s₁)
    (spent : s₁.left + other.nodes.credit ≤ s.left + pace.nodes.credit) :
    Suffices levels other s₁ := by
  rcases enough with full | few
  · exact .inl (by rwa [leads.options, leads.depth])
  · exact .inr (Nat.le_trans spent few)

theorem Finishes.within {parser : Parser α} {count : Count} (within : Pace.Within one pace)
    (finishes : Finishes one parser count s) : Finishes pace parser count s := by
  obtain ⟨work, counted, leads, items, nodes⟩ := finishes
  obtain ⟨⟨less, more⟩, alsoLess, alsoMore⟩ := within.terms
  exact ⟨work, counted, leads, items.within less more, nodes.within alsoLess alsoMore⟩

theorem Finishes.offer {offered : Parser Bool} {next : Bool → Parser β} {taken refused : Count}
    (offer : Offer offered) (sane : s.Sane)
    (yes : ∀ s₁, Leads s s₁ → s₁.left + 1 ≤ s.left → Finishes other (next true) taken s₁)
    (no : Finishes pace (next false) refused s) :
    Finishes pace (offered >>= next)
      (.andThen offered .nothing fun | true => taken | false => refused) s := by
  rcases offer.outcome sane with here | ⟨bounded, moves⟩
  · refine .andThen .still (.nothing (.stay sane (by rw [here]; rfl) (.inr rfl)))
      fun answer s₁ ran => ?_
    cases here.symm.trans ran
    exact no
  · have chain : Pace.Chain .onward other .onward := .onward
    refine .within .onward (.andThen chain (.nothing bounded) fun answer s₁ ran => ?_)
    cases answer
    · exact absurd ran (moves s₁)
    · obtain ⟨leads, spent, _⟩ := (Finishes.nothing bounded).spare ran
      exact yes s₁ leads spent

/-- An item is begun with the token that it has to spare. -/
theorem Finishes.ofItem {item : Parser α} {count : Count}
    (finishes : Finishes .opening item count s) : Finishes .free item (.ofItem item count) s := by
  obtain ⟨work, counted, leads, items, nodes⟩ := finishes
  refine ⟨{ work with items := work.items.around (succeeded (item s)) }, ?_, leads, items.around,
    nodes⟩
  rw [Count.ofItem, counted, Option.map_some]

theorem Finishes.ofNode {body : Parser α} {count : Count} (sane : s.Sane)
    (inside : s.depth < s.options.maxNestingDepth → Finishes .onward body count s.opened) :
    Finishes .opening (nested body) (.ofNode body count) s := by
  unfold Finishes Count.ofNode Parser.nested
  split
  · rename_i free
    obtain ⟨work, counted, leads, items, nodes⟩ := inside free
    refine ⟨{ work with nodes := work.nodes.around (succeeded (body s.opened)) }, ?_, ?_⟩
    · rw [counted, Option.map_some]
    cases ran : body s.opened with
    | ok found s₁ | error error s₁ =>
        rw [ran] at leads items nodes
        have closed : s₁.depth = s.depth + 1 := leads.depth
        refine ⟨⟨leads.sane.atDepth _, leads.options, ?_⟩, items, nodes.around⟩
        show s₁.depth - 1 = s.depth
        omega
  · exact ⟨0, rfl, .stay sane rfl (.inl rfl)⟩

/-- A loop ends with its item, or with the last of them, where it has more rounds than there are
tokens left. -/
theorem Finishes.ofRounds {goesOn again : Parser Bool} {item : Parser α} {count : Count}
    (before : Step .still goesOn) (behind : Step .still again)
    (each : ∀ s, s.Sane → Suffices levels .opening s → Finishes .opening item count s)
    (rounds : Nat) : ∀ s, s.Sane → Suffices levels .free s → s.left < rounds →
      Finishes .free (repeated goesOn item again rounds)
        (.ofRounds goesOn item again count rounds) s := by
  have chain {one : Pace} : Pace.Chain one .free .free := .free
  have nothing {s : State} {result : List α} (sane : s.Sane) :
      Finishes .free (pure result) .nothing s :=
    .within .free (.nothing ((Step.pure result).bounded sane))
  -- An item moves past a token, so one round fewer is enough for the tokens behind it.
  induction rounds with
  | zero => exact fun _ _ _ few => absurd few (Nat.not_lt_zero _)
  | succ rounds ih =>
      intro s sane enough few
      have starts := Finishes.nothing (before.bounded sane)
      refine .andThen chain starts fun goes s₁ went => ?_
      obtain ⟨first, stayed, _⟩ := starts.spare went
      cases goes with
      | false => exact nothing first.sane
      | true =>
      have onward : Suffices levels .opening s₁ :=
        enough.behind first (Nat.add_le_add_right stayed _)
      have inside := each s₁ first.sane onward
      refine .andThen chain inside.ofItem fun found s₂ parsed => ?_
      obtain ⟨second, passed, _⟩ := inside.spare parsed
      have asks := Finishes.nothing (behind.bounded second.sane)
      refine .andThen chain asks fun more s₃ asked => ?_
      obtain ⟨third, last, _⟩ := asks.spare asked
      have fewer : s₃.left < s₁.left :=
        Nat.lt_of_le_of_lt last (Nat.lt_of_succ_le passed)
      cases more with
      | false => exact nothing third.sane
      | true =>
          have further := (first.trans second).trans third
          have enoughBehind : Suffices levels .free s₃ :=
            enough.behind further (Nat.add_le_add_right (by omega) _)
          exact (ih s₃ further.sane enoughBehind (by omega)).map (found :: ·)

/-- What a program begins is paid for by the tokens that it moves past, and with levels enough it
comes to its end. -/
theorem Program.finishes {parser : Parser α} (program : Program levels pace parser) :
    ∀ {s : State}, s.Sane → Suffices levels pace s → Finishes pace parser program.work s := by
  induction program with
  | step step => exact fun sane _ => .nothing (step.bounded sane)
  | bind chain _ _ first next =>
      intro s sane enough
      obtain ⟨_, less, rest⟩ := chain.terms.2
      have starts := first sane (enough.behind ⟨sane, rfl, rfl⟩ (by omega))
      refine .andThen chain starts fun part s₁ ran => ?_
      obtain ⟨leads, _, spent⟩ := starts.spare ran
      exact next part leads.sane (enough.behind leads (by omega))
  | @offer _ _ other _ _ _ offer _ _ taken refused =>
      intro s sane enough
      have most := other.terms_le.2.2
      exact .offer offer sane
        (fun s₁ leads spent => taken leads.sane (enough.behind leads (by omega)))
        (refused sane enough)
  | branch condition _ _ yes no =>
      intro s sane enough
      by_cases holds : condition
      · simpa only [Program.work, Finishes, if_pos holds] using yes sane enough
      · simpa only [Program.work, Finishes, if_neg holds] using no sane enough
  | map change _ ih => exact fun sane enough => (ih sane enough).map change
  | within within _ ih =>
      intro s sane enough
      have less := within.terms.2.2
      exact .within within (ih sane (enough.behind ⟨sane, rfl, rfl⟩ (by omega)))
  | same same _ ih =>
      subst same
      exact ih
  | loop _ before behind _ ih =>
      intro s sane enough
      exact .ofRounds before behind (fun _ => ih) _ s sane enough s.left_lt_rounds
  | @nested levels _ _ _ ih =>
      -- The body moves past a token before it opens a node, so one level fewer is enough.
      intro s sane enough
      refine .ofNode sane fun _ => ih (sane.atDepth _) ?_
      rcases enough with full | few
      · exact .inl (by show s.options.maxNestingDepth ≤ s.depth + 1 + levels; omega)
      · exact .inr (Nat.le_of_succ_le_succ few)
  | refuse =>
      intro s sane enough
      have full : s.options.maxNestingDepth ≤ s.depth :=
        enough.resolve_right (Nat.not_succ_le_zero _)
      exact ⟨0, if_neg (Nat.not_lt.mpr full), .stay sane rfl (.inl rfl)⟩

end

end GraphQL.Parser

import GraphQL.Proofs.Parser.Program

/-!
Where runs lead. A run of a program, whether it succeeds or not, stops in a state that single steps
lead to as well, so that whatever is asked for next starts from such a state.
-/

namespace GraphQL.Parser

variable {source : Source} {options : Options} {s : State} {pace : Pace}

theorem State.Reached.bind {first : Parser α} {next : α → Parser β}
    (starts : (stopped (first s)).Reached source options)
    (goesOn : ∀ part s₁, s₁.Reached source options →
      (stopped (next part s₁)).Reached source options) :
    (stopped ((first >>= next) s)).Reached source options := by
  rw [stopped_bind]
  cases ran : first s with
  | ok part s₁ =>
      rw [ran] at starts
      exact goesOn part s₁ starts
  | error _ s₁ => rwa [ran] at starts

variable (here : s.Reached source options)
include here

theorem Step.reached {parser : Parser α} (step : Step pace parser) :
    (stopped (parser s)).Reached source options := by
  induction step with
  | pure | current | span | allowsFragmentVariables | fail | unexpected => exact here
  | advance => exact here.advance
  | lookahead => exact here.lookahead
  | expect | expectMark =>
      unfold Parser.expect
      rw [current_eq]
      split
      · exact here.advance
      · exact here
  | expectKeyword =>
      unfold Parser.expectKeyword
      rw [current_eq]
      split
      · exact here.advance
      · exact here
  | accept =>
      unfold Parser.accept
      rw [current_eq]
      split
      · exact here.advance.bind fun _ _ there => there
      · exact here
  | map change _ ih =>
      rw [stopped_map]
      exact ih

theorem Offer.reached {offered : Parser Bool} (offer : Offer offered) :
    (stopped (offered s)).Reached source options := by
  cases offer with
  | accept _ => exact (Step.accept _).reached here
  | acceptKeyword keyword =>
      unfold Parser.acceptKeyword
      rw [current_eq]
      split
      · exact here.advance.bind fun _ _ there => there
      · exact here

omit here in
theorem repeated_reached {goesOn again : Parser Bool} {item : Parser α}
    (before : Step .still goesOn) (behind : Step .still again)
    (each : ∀ {s : State}, s.Reached source options → (stopped (item s)).Reached source options)
    (rounds : Nat) : ∀ {s : State}, s.Reached source options →
      (stopped (repeated goesOn item again rounds s)).Reached source options := by
  induction rounds with
  | zero => exact id
  | succ rounds ih =>
      intro s here
      refine (before.reached here).bind fun goes s₁ there => ?_
      split
      · refine (each there).bind fun first s₂ there => ?_
        refine (behind.reached there).bind fun more s₃ there => ?_
        split
        · exact (ih there).bind fun _ _ there => there
        · exact there
      · exact there

/-- Steps lead wherever programs lead, whether these succeed or not. -/
theorem Program.reached {levels : Nat} {parser : Parser α} (program : Program levels pace parser) :
    (stopped (parser s)).Reached source options := by
  induction program generalizing s with
  | step step => exact step.reached here
  | bind _ _ _ first next => exact (first here).bind fun part _ there => next part there
  | offer offer _ _ taken refused =>
      refine (offer.reached here).bind fun answer s₁ there => ?_
      cases answer
      · exact refused there
      · exact taken there
  | branch condition _ _ yes no =>
      split
      · exact yes here
      · exact no here
  | map change _ ih =>
      rw [stopped_map]
      exact ih here
  | within _ _ ih => exact ih here
  | same same _ ih =>
      rw [same]
      exact ih here
  | loop _ before behind _ ih => exact repeated_reached before behind ih _ here
  | @nested _ _ body _ ih =>
      have inside : (stopped (body s.opened)).Reached source options :=
        ih (here.atDepth (s.depth + 1))
      unfold Parser.nested
      split
      · cases ran : body s.opened with
        | ok found s₁ | error error s₁ =>
            rw [ran] at inside
            exact inside.atDepth _
      · exact here
  | refuse => exact here

end GraphQL.Parser

import GraphQL.Proofs.Spacing

/-!
A lexer may be asked for tokens in any order. Looking ahead reads what the next move would have
read, and the move then reads nothing. So however a lexer is used, it has read a part of what
advancing alone reads, stands on the token that as many moves alone come to, and meets the same
error.
-/

namespace GraphQL

namespace Lexer

variable {lexer next : Lexer} {token : Token} {error : SyntaxError}

/-! What one move reads. -/

/-- What was read for an answer: comments, and behind them the significant token that is
answered. An error leaves the comments only. -/
inductive Passes (lexer next : Lexer) : Except SyntaxError Token → Prop
  | token {passed : List Token} {token : Token}
      (comments : ∀ comment ∈ passed, comment.isSignificant = false)
      (significant : token.isSignificant = true)
      (kept : next.tokens.toList = lexer.tokens.toList ++ passed ++ [token]) :
      Passes lexer next (.ok token)
  | error {passed : List Token} {error : SyntaxError}
      (comments : ∀ comment ∈ passed, comment.isSignificant = false)
      (kept : next.tokens.toList = lexer.tokens.toList ++ passed) : Passes lexer next (.error error)

theorem Passes.extends {answer : Except SyntaxError Token} (passes : lexer.Passes next answer) :
    lexer.tokens.toList <+: next.tokens.toList := by
  cases passes with
  | token _ _ kept =>
      rw [kept, List.append_assoc]
      exact List.prefix_append _ _
  | error _ kept =>
      rw [kept]
      exact List.prefix_append _ _

theorem Passes.behind {second : Lexer} {comment : Token} {answer : Except SyntaxError Token}
    (isComment : comment.isSignificant = false)
    (kept : second.tokens.toList = lexer.tokens.toList ++ [comment])
    (passes : second.Passes next answer) : lexer.Passes next answer := by
  have longer {passed : List Token} (comments : ∀ other ∈ passed, other.isSignificant = false) :
      ∀ other ∈ comment :: passed, other.isSignificant = false := by
    intro other member
    rcases List.mem_cons.mp member with rfl | later
    · exact isComment
    · exact comments other later
  cases passes with
  | token comments significant more =>
      apply Passes.token (longer comments) significant
      simp [more, kept]
  | error comments more =>
      apply Passes.error (longer comments)
      simp [more, kept]

theorem read_kept (read : lexer.read = (.ok token, next)) :
    next.tokens.toList = lexer.tokens.toList ++ [token] := by
  obtain ⟨scan, _, rfl⟩ := read_ok read
  exact Array.toList_push

theorem read_failed (failed : lexer.read = (.error error, next)) : next.tokens = lexer.tokens := by
  unfold Lexer.read at failed
  split at failed
  · cases failed
  · cases failed
    rfl

theorem Comes.passes {outcome : Except SyntaxError Token × Lexer} (comes : lexer.Comes outcome) :
    lexer.Passes outcome.2 outcome.1 := by
  induction comes with
  | token read significant =>
      apply Passes.token (List.forall_mem_nil _) significant
      rw [read_kept read, List.append_nil]
  | failed read =>
      apply Passes.error (List.forall_mem_nil _)
      rw [read_failed read, List.append_nil]
  | comment read isComment _ ih => exact ih.behind isComment (read_kept read)

/-! The two calls beside one another. -/

theorem lookahead_ended (ended : lexer.current.lexeme = .eof) :
    lexer.lookahead = (.ok lexer.current, lexer) := by
  rw [lookahead, if_pos ended]

theorem advance_of_shown (shown : lexer.lookahead = (.ok token, next)) :
    lexer.advance =
      (.ok token, { next with last := next.current, current := token, ahead := none }) := by
  rw [advance, shown]

theorem advance_of_failed (failed : lexer.lookahead = (.error error, next)) :
    lexer.advance = (.error error, next) := by
  rw [advance, failed]

theorem shown_of_advance (moved : lexer.advance = (.ok token, next)) :
    ∃ second, lexer.lookahead = (.ok token, second) ∧
      next = { second with last := second.current, current := token, ahead := none } := by
  cases shown : lexer.lookahead with
  | mk answer second =>
  cases answer with
  | error error =>
      rw [advance_of_failed shown] at moved
      cases moved
  | ok found =>
      rw [advance_of_shown shown] at moved
      cases moved
      exact ⟨second, rfl, rfl⟩

theorem failed_of_advance (failed : lexer.advance = (.error error, next)) :
    lexer.lookahead = (.error error, next) := by
  cases shown : lexer.lookahead with
  | mk answer second =>
  cases answer with
  | error other => rwa [advance_of_failed shown] at failed
  | ok found =>
      rw [advance_of_shown shown] at failed
      cases failed

/-- Whether a call moves or only shows, it answers the same. -/
theorem call_answers (lexer : Lexer) (call : Call) :
    (lexer.call call).1 = lexer.advance.1 := by
  cases call with
  | advance => rfl
  | lookahead =>
      show lexer.lookahead.1 = lexer.advance.1
      cases shown : lexer.lookahead with
      | mk answer next =>
      cases answer with
      | error error => rw [advance_of_failed shown]
      | ok token => rw [advance_of_shown shown]

theorem lookahead_seen (goesOn : lexer.current.lexeme ≠ .eof) (seen : lexer.ahead = some token) :
    lexer.lookahead = (.ok token, lexer) := by
  simp only [lookahead, if_neg goesOn, seen]

theorem lookahead_again (shown : lexer.lookahead = (.ok token, next)) :
    next.lookahead = (.ok token, next) := by
  have looks := lexer.looks
  rw [shown] at looks
  cases looks with
  | ended ends => exact lookahead_ended ends
  | seen goesOn seen => exact lookahead_seen goesOn seen
  | token goesOn unseen comes =>
      rw [← comes.stays.current] at goesOn
      exact lookahead_seen goesOn rfl

theorem advance_of_looked (shown : lexer.lookahead = (.ok token, next)) :
    next.advance = lexer.advance := by
  rw [advance_of_shown shown, advance_of_shown (lookahead_again shown)]

theorem lookahead_passes (goesOn : lexer.current.lexeme ≠ .eof) (unseen : lexer.ahead = none) :
    lexer.Passes lexer.lookahead.2 lexer.lookahead.1 ∧
      lexer.lookahead.2.current = lexer.current ∧ lexer.lookahead.2.last = lexer.last := by
  have looks := lexer.looks
  generalize lexer.lookahead = outcome at looks
  cases looks with
  | ended ends => exact absurd ends goesOn
  | seen _ seen =>
      rw [unseen] at seen
      cases seen
  | failed _ _ comes => exact ⟨comes.passes, comes.stays.current, comes.stays.last⟩
  | token _ _ comes =>
      refine ⟨?_, comes.stays.current, comes.stays.last⟩
      cases comes.passes with
      | token comments significant kept => exact .token comments significant kept

/-! Advancing alone. -/

/-- Advancing from one lexer, alone and to the end or to the first error, leads to another. At
the end nothing more is read. -/
inductive Leads (final : Lexer) : Lexer → Option SyntaxError → Prop
  | ended {lexer : Lexer} (ends : lexer.current.lexeme = .eof)
      (same : final.tokens = lexer.tokens) : Leads final lexer none
  | fails {lexer : Lexer} {error : SyntaxError} (failed : lexer.advance = (.error error, final)) :
      Leads final lexer (some error)
  | moves {lexer next : Lexer} {token : Token} {failure : Option SyntaxError}
      (goesOn : lexer.current.lexeme ≠ .eof) (moved : lexer.advance = (.ok token, next))
      (onward : Leads final next failure) : Leads final lexer failure

namespace Leads

variable {final : Lexer} {failure : Option SyntaxError}

theorem at_end (leads : Leads final lexer failure) (ended : lexer.current.lexeme = .eof) :
    failure = none ∧ final.tokens = lexer.tokens := by
  cases leads with
  | ended _ same => exact ⟨rfl, same⟩
  | fails failed =>
      rw [advance_of_shown (lookahead_ended ended)] at failed
      cases failed
  | moves goesOn _ _ => exact absurd ended goesOn

theorem onward (leads : Leads final lexer failure) (goesOn : lexer.current.lexeme ≠ .eof)
    (moved : lexer.advance = (.ok token, next)) : Leads final next failure := by
  cases leads with
  | ended ends _ => exact absurd ends goesOn
  | fails failed =>
      rw [moved] at failed
      cases failed
  | moves _ also onward =>
      rw [moved] at also
      cases also
      exact onward

theorem advance (leads : Leads final lexer failure) (moved : lexer.advance = (.ok token, next)) :
    Leads final next failure := by
  by_cases ended : lexer.current.lexeme = .eof
  · obtain ⟨rfl, same⟩ := leads.at_end ended
    rw [advance_of_shown (lookahead_ended ended)] at moved
    cases moved
    exact .ended ended same
  · exact leads.onward ended moved

theorem at_failure (leads : Leads final lexer failure) (goesOn : lexer.current.lexeme ≠ .eof)
    (failed : lexer.advance = (.error error, next)) : failure = some error := by
  cases leads with
  | ended ends _ => exact absurd ends goesOn
  | fails also =>
      rw [failed] at also
      cases also
      rfl
  | moves _ moved _ =>
      rw [failed] at moved
      cases moved

end Leads

theorem leads_of_finish {final : Lexer} {failure : Option SyntaxError} {steps : Nat}
    (finished : lexer.finish steps = (failure, final)) (enough : lexer.scan.rest.length < steps)
    (unseen : lexer.ahead = none) (goesOn : lexer.current.lexeme ≠ .eof) :
    Leads final lexer failure := by
  induction steps generalizing lexer with
  | zero => omega
  | succ steps ih =>
      rw [finish] at finished
      cases moved : lexer.lookahead with
      | mk answer next =>
      cases answer with
      | error error =>
          rw [advance_of_failed moved] at finished
          cases finished
          exact .fails (advance_of_failed moved)
      | ok token =>
          have advanced := advance_of_shown moved
          rw [advanced] at finished
          dsimp only at finished
          split at finished
          · rename_i ends
            cases finished
            exact .moves goesOn advanced (.ended ends rfl)
          · rename_i more
            refine .moves goesOn advanced (ih finished ?_ rfl more)
            have looks := lexer.looks
            rw [moved] at looks
            cases looks with
            | ended ends => exact absurd ends goesOn
            | seen _ seen =>
                rw [unseen] at seen
                cases seen
            | @token _ second _ _ comes =>
                cases comes.movesOver with
                | ended ends _ => exact absurd ends more
                | left _ shorter _ =>
                    show second.scan.rest.length < steps
                    omega

theorem leads_of_source (source : Source) :
    Leads source.lex.2 (ofSource source) source.lex.1 :=
  leads_of_finish rfl (Nat.lt_succ_self _) rfl (by rintro ⟨⟩)

theorem lookahead_extends (lexer : Lexer) :
    lexer.tokens.toList <+: lexer.lookahead.2.tokens.toList := by
  by_cases ended : lexer.current.lexeme = .eof
  · simp [lookahead_ended ended]
  cases unseen : lexer.ahead with
  | some token => simp [lookahead, if_neg ended, unseen]
  | none => exact (lookahead_passes ended unseen).1.extends

theorem advance_tokens (lexer : Lexer) : lexer.advance.2.tokens = lexer.lookahead.2.tokens := by
  cases shown : lexer.lookahead with
  | mk answer next =>
  cases answer with
  | error error => rw [advance_of_failed shown]
  | ok token => rw [advance_of_shown shown]

theorem call_extends (lexer : Lexer) (call : Call) :
    lexer.tokens.toList <+: (lexer.call call).2.tokens.toList := by
  cases call with
  | advance =>
      show lexer.tokens.toList <+: lexer.advance.2.tokens.toList
      rw [advance_tokens]
      exact lexer.lookahead_extends
  | lookahead => exact lexer.lookahead_extends

theorem Leads.extends {final : Lexer} {failure : Option SyntaxError}
    (leads : Leads final lexer failure) : lexer.tokens.toList <+: final.tokens.toList := by
  induction leads with
  | ended _ same => simp [same]
  | @fails lexer _ failed =>
      have longer := lexer.call_extends .advance
      rwa [call, failed] at longer
  | @moves lexer _ _ _ _ moved _ ih =>
      have longer := lexer.call_extends .advance
      rw [call, moved] at longer
      exact longer.trans ih

end Lexer

/-- The significant token at a place among those that advancing alone comes to. Behind the end
stands the end again; behind an error stands nothing. -/
def Source.significantAt (source : Source) (place : Nat) : Option Token :=
  match source.lex.2.significant[place]?, source.lex.1 with
  | some token, _ => some token
  | none, none => source.lex.2.significant.getLast?
  | none, some _ => none

namespace Lexer

variable {source : Source} {count : Nat} {lexer next : Lexer} {token : Token}
  {error : SyntaxError}

/-- A lexer after `count` advances and nothing else, none of which has failed. -/
structure Abreast (source : Source) (count : Nat) (lexer : Lexer) : Prop where
  leads : Leads source.lex.2 lexer source.lex.1
  unseen : lexer.ahead = none
  counted : lexer.significant.length = count + 1 ∨
    (lexer.significant.length ≤ count ∧ lexer.current.lexeme = .eof)
  current : lexer.significant.getLast? = some lexer.current
  last : source.significantAt (count - 1) = some lexer.last

theorem significantAt_of_counted (longer : lexer.tokens.toList <+: source.lex.2.tokens.toList)
    (counted : lexer.significant.length = count + 1)
    (current : lexer.significant.getLast? = some token) :
    source.significantAt count = some token := by
  obtain ⟨more, same⟩ := longer.filter Token.isSignificant
  have short : count < (lexer.tokens.toList.filter Token.isSignificant).length := by
    rw [← significant, counted]
    exact Nat.lt_succ_self count
  have here : source.lex.2.significant[count]? = some token := by
    rw [significant, ← same, ← current, List.getLast?_eq_getElem?, counted,
      List.getElem?_append_left short]
    rfl
  rw [Source.significantAt, here]

theorem Abreast.shown (abreast : Abreast source count lexer) :
    source.significantAt count = some lexer.current := by
  rcases abreast.counted with counted | ⟨short, ended⟩
  · exact significantAt_of_counted abreast.leads.extends counted abreast.current
  · obtain ⟨clean, same⟩ := abreast.leads.at_end ended
    have whole : source.lex.2.significant = lexer.significant := by
      rw [significant, same, significant]
    have behind : lexer.significant[count]? = none := List.getElem?_eq_none short
    rw [Source.significantAt, whole, clean, behind]
    exact abreast.current

theorem abreast_ofSource (source : Source) : Abreast source 0 (ofSource source) where
  leads := leads_of_source source
  unseen := rfl
  counted := .inl rfl
  current := rfl
  last := significantAt_of_counted (leads_of_source source).extends rfl rfl

theorem Abreast.advance (abreast : Abreast source count lexer)
    (moved : lexer.advance = (.ok token, next)) : Abreast source (count + 1) next := by
  have leads := abreast.leads.advance moved
  by_cases ended : lexer.current.lexeme = .eof
  · rw [advance_of_shown (lookahead_ended ended)] at moved
    cases moved
    constructor
    · exact leads
    · rfl
    · refine .inr ⟨?_, ended⟩
      rcases abreast.counted with counted | ⟨short, _⟩
      · exact Nat.le_of_eq counted
      · exact Nat.le_succ_of_le short
    · exact abreast.current
    · exact abreast.shown
  · obtain ⟨passes, stays, _⟩ := lookahead_passes ended abreast.unseen
    obtain ⟨second, shown, rfl⟩ := shown_of_advance moved
    rw [shown] at passes stays
    cases passes with
    | @token passed _ comments isShown kept =>
    have grown : second.significant = lexer.significant ++ [token] := by
      have none : passed.filter Token.isSignificant = [] :=
        List.filter_eq_nil_iff.mpr fun comment member => by simp [comments comment member]
      rw [significant, kept, List.filter_append, List.filter_append, none, List.append_nil,
        List.filter_cons_of_pos isShown, List.filter_nil, significant]
    constructor
    · exact leads
    · rfl
    · left
      rcases abreast.counted with counted | ⟨_, ends⟩
      · show second.significant.length = count + 1 + 1
        rw [grown, List.length_append, counted]
        rfl
      · exact absurd ends ended
    · show second.significant.getLast? = some token
      rw [grown, List.getLast?_concat]
    · show source.significantAt count = some second.current
      rw [stays]
      exact abreast.shown

/-! Using a lexer in any order. -/

/-- Ways to use a lexer: to ask it for a token, or to look at what it has read. -/
inductive Use where
  | ask (call : Call)
  | get (place : Nat)
  | nextOf (place : Nat)
  | prevOf (place : Nat)
  | token
  | lastToken
deriving DecidableEq, Repr

inductive Answer where
  | asked (answer : Except SyntaxError Token)
  | seen (token : Option Token)

def Answer.isOk : Answer → Bool
  | asked answer => answer.isOk
  | seen _ => true

def use (lexer : Lexer) : Use → Answer × Lexer
  | .ask call => (.asked (lexer.call call).1, (lexer.call call).2)
  | .get place => (.seen (lexer.get? place), lexer)
  | .nextOf place => (.seen (lexer.nextOf? place), lexer)
  | .prevOf place => (.seen (lexer.prevOf? place), lexer)
  | .token => (.seen (some lexer.current), lexer)
  | .lastToken => (.seen (some lexer.last), lexer)

def uses (lexer : Lexer) : List Use → List Answer × Lexer
  | [] => ([], lexer)
  | first :: rest =>
      let (answer, next) := lexer.use first
      let (answers, last) := next.uses rest
      (answer :: answers, last)

theorem uses_cons (lexer : Lexer) (first : Use) (rest : List Use) :
    lexer.uses (first :: rest) = ((lexer.use first).1 :: ((lexer.use first).2.uses rest).1,
      ((lexer.use first).2.uses rest).2) := rfl

def advances (uses : List Use) : Nat := uses.count (.ask .advance)

/-- A lexer that was used without an error stands where its advances alone come to, and may have
the next token in view. -/
inductive InView (source : Source) (count : Nat) : Lexer → Prop
  | plain {lexer : Lexer} (abreast : Abreast source count lexer) : InView source count lexer
  | looked {lexer next : Lexer} {token : Token} (abreast : Abreast source count lexer)
      (shown : lexer.lookahead = (.ok token, next)) : InView source count next

theorem InView.lookahead (inView : InView source count lexer)
    (shown : lexer.lookahead = (.ok token, next)) : InView source count next := by
  cases inView with
  | plain abreast => exact .looked abreast shown
  | looked abreast before =>
      rw [lookahead_again before] at shown
      cases shown
      exact .looked abreast before

theorem InView.advance (inView : InView source count lexer)
    (moved : lexer.advance = (.ok token, next)) : InView source (count + 1) next := by
  cases inView with
  | plain abreast => exact .plain (abreast.advance moved)
  | looked abreast before =>
      rw [advance_of_looked before] at moved
      exact .plain (abreast.advance moved)

theorem InView.use (inView : InView source count lexer) (use : Use)
    (clean : (lexer.use use).1.isOk = true) :
    InView source (count + if use = .ask .advance then 1 else 0) (lexer.use use).2 := by
  cases use with
  | ask call =>
      cases call with
      | advance =>
          cases moved : lexer.advance with
          | mk answer next =>
          simp only [Lexer.use, call, moved, Answer.isOk] at clean ⊢
          cases answer with
          | error error => cases clean
          | ok token => exact inView.advance moved
      | lookahead =>
          cases shown : lexer.lookahead with
          | mk answer next =>
          simp only [Lexer.use, call, shown, Answer.isOk] at clean ⊢
          cases answer with
          | error error => cases clean
          | ok token => exact inView.lookahead shown
  | get place => exact inView
  | nextOf place => exact inView
  | prevOf place => exact inView
  | token => exact inView
  | lastToken => exact inView

/-- What any uses without an error keep. -/
theorem InView.uses (inView : InView source count lexer) {uses : List Use}
    {answers : List Answer} (used : lexer.uses uses = (answers, next))
    (clean : ∀ answer ∈ answers, answer.isOk = true) :
    InView source (count + advances uses) next := by
  induction uses generalizing lexer count answers with
  | nil =>
      cases used
      exact inView
  | cons first rest ih =>
      rw [uses_cons] at used
      cases used
      have here := inView.use first (clean _ List.mem_cons_self)
      have onward := ih here rfl fun answer member => clean answer (List.mem_cons_of_mem _ member)
      have counted : count + advances (first :: rest) =
          (count + if first = .ask .advance then 1 else 0) + advances rest := by
        simp only [advances, List.count_cons, beq_iff_eq]
        omega
      rw [counted]
      exact onward

/-! What a lexer that was used in any order shows. -/

theorem InView.extends (inView : InView source count lexer) :
    lexer.tokens.toList <+: source.lex.2.tokens.toList := by
  cases inView with
  | plain abreast => exact abreast.leads.extends
  | @looked base _ token abreast shown =>
      have advanced := abreast.advance (advance_of_shown shown)
      exact advanced.leads.extends

theorem InView.stands (inView : InView source count lexer) :
    source.significantAt count = some lexer.current ∧
      source.significantAt (count - 1) = some lexer.last := by
  cases inView with
  | plain abreast => exact ⟨abreast.shown, abreast.last⟩
  | @looked base _ token abreast shown =>
      have stays : lexer.current = base.current ∧ lexer.last = base.last := by
        by_cases ended : base.current.lexeme = .eof
        · rw [lookahead_ended ended] at shown
          cases shown
          exact ⟨rfl, rfl⟩
        · have passes := lookahead_passes ended abreast.unseen
          rw [shown] at passes
          exact passes.2
      rw [stays.1, stays.2]
      exact ⟨abreast.shown, abreast.last⟩

theorem InView.answers (inView : InView source count lexer) {call : Call}
    (answered : (lexer.call call).1 = .ok token) :
    source.significantAt (count + 1) = some token := by
  rw [call_answers] at answered
  cases moved : lexer.advance with
  | mk answer next =>
  rw [moved] at answered
  cases answered
  have shown := (inView.advance moved).stands.1
  obtain ⟨second, _, rfl⟩ := shown_of_advance moved
  exact shown

theorem InView.fails (inView : InView source count lexer) {call : Call}
    (failed : lexer.call call = (.error error, next)) :
    source.lex.1 = some error ∧ next.current = lexer.current ∧ next.last = lexer.last ∧
      ∃ comments, next.tokens.toList = lexer.tokens.toList ++ comments ∧
        ∀ comment ∈ comments, comment.lexeme.isComment = true := by
  have looked : lexer.lookahead = (.error error, next) := by
    cases call with
    | lookahead => exact failed
    | advance => exact failed_of_advance failed
  cases inView with
  | looked _ before =>
      rw [lookahead_again before] at looked
      cases looked
  | plain abreast =>
      have goesOn : lexer.current.lexeme ≠ .eof := by
        intro ended
        rw [lookahead_ended ended] at looked
        cases looked
      obtain ⟨passes, current, last⟩ := lookahead_passes goesOn abreast.unseen
      rw [looked] at passes current last
      refine ⟨?_, current, last, ?_⟩
      · exact abreast.leads.at_failure goesOn (advance_of_failed looked)
      · cases passes with
        | @error passed _ comments kept =>
            refine ⟨passed, kept, fun comment member => ?_⟩
            simpa [Token.isSignificant] using comments comment member

theorem use_extends (lexer : Lexer) (use : Use) :
    lexer.tokens.toList <+: (lexer.use use).2.tokens.toList := by
  cases use with
  | ask call => exact lexer.call_extends call
  | _ => exact List.prefix_refl _

/-- Tokens that were read never change. -/
theorem uses_extends (lexer : Lexer) (uses : List Use) :
    lexer.tokens.toList <+: (lexer.uses uses).2.tokens.toList := by
  induction uses generalizing lexer with
  | nil => exact List.prefix_refl _
  | cons first rest ih =>
      rw [uses_cons]
      exact (lexer.use_extends first).trans (ih _)

theorem uses_shown (shown : lexer.lookahead = (.ok token, next)) {uses : List Use}
    (still : .ask .advance ∉ uses) : (next.uses uses).2 = next := by
  have again := lookahead_again shown
  induction uses with
  | nil => rfl
  | cons first rest ih =>
      rw [List.mem_cons, not_or] at still
      have stays : (next.use first).2 = next := by
        cases first with
        | ask call =>
            cases call with
            | advance => exact absurd rfl still.1
            | lookahead =>
                show next.lookahead.2 = next
                rw [again]
        | _ => rfl
      rw [uses_cons, stays]
      exact ih still.2

theorem uses_ended (ended : lexer.current.lexeme = .eof) (uses : List Use) :
    (lexer.uses uses).2.tokens = lexer.tokens ∧
      ∀ answer, .asked answer ∈ (lexer.uses uses).1 → answer = .ok lexer.current := by
  induction uses generalizing lexer with
  | nil => exact ⟨rfl, fun _ member => absurd member List.not_mem_nil⟩
  | cons first rest ih =>
      have looked := lookahead_ended ended
      have stays : (lexer.use first).2.tokens = lexer.tokens ∧
          (lexer.use first).2.current = lexer.current ∧
          ∀ answer, .asked answer = (lexer.use first).1 → answer = .ok lexer.current := by
        cases first with
        | ask call =>
            cases call with
            | advance =>
                simp only [use, call, advance_of_shown looked, Answer.asked.injEq, true_and]
                exact fun _ same => same
            | lookahead =>
                simp only [use, call, looked, Answer.asked.injEq, true_and]
                exact fun _ same => same
        | _ => exact ⟨rfl, rfl, fun _ same => by cases same⟩
      obtain ⟨tokens, current, answered⟩ := stays
      obtain ⟨onward, others⟩ := @ih (lexer.use first).2 (by rw [current]; exact ended)
      rw [uses_cons]
      refine ⟨onward.trans tokens, fun answer member => ?_⟩
      rcases List.mem_cons.mp member with here | later
      · exact answered answer here
      · rw [← current]
        exact others answer later

/-- A lexer that keeps step with advancing alone, after that many advances. -/
structure InStep (source : Source) (count : Nat) (lexer : Lexer) : Prop where
  arena : lexer.tokens.toList <+: source.lex.2.tokens.toList
  kept : ∀ uses, lexer.tokens.toList <+: (lexer.uses uses).2.tokens.toList
  current : source.significantAt count = some lexer.current
  last : source.significantAt (count - 1) = some lexer.last
  answers : ∀ call token, (lexer.call call).1 = .ok token →
    source.significantAt (count + 1) = some token
  shows : ∀ token next, lexer.lookahead = (.ok token, next) →
    ∀ uses, .ask .advance ∉ uses → (next.uses uses).2.advance.1 = .ok token
  ended : lexer.current.lexeme = .eof → ∀ uses, (lexer.uses uses).2.tokens = lexer.tokens ∧
    ∀ answer, .asked answer ∈ (lexer.uses uses).1 → answer = .ok lexer.current
  fails : ∀ call error next, lexer.call call = (.error error, next) →
    source.lex.1 = some error ∧ next.current = lexer.current ∧ next.last = lexer.last ∧
      ∃ comments, next.tokens.toList = lexer.tokens.toList ++ comments ∧
        ∀ comment ∈ comments, comment.lexeme.isComment = true

/-- Whatever the order in which a lexer is used, it keeps step with advancing alone as long as
no use fails. -/
theorem uses_inStep {source : Source} {uses : List Use} {answers : List Answer} {lexer : Lexer}
    (used : (ofSource source).uses uses = (answers, lexer))
    (clean : ∀ answer ∈ answers, answer.isOk = true) :
    InStep source (advances uses) lexer := by
  have inView := (InView.plain (abreast_ofSource source)).uses used clean
  rw [Nat.zero_add] at inView
  constructor
  · exact inView.extends
  · exact lexer.uses_extends
  · exact inView.stands.1
  · exact inView.stands.2
  · exact fun _ _ answered => inView.answers answered
  · intro token next shown between still
    rw [uses_shown shown still, advance_of_looked shown, advance_of_shown shown]
  · exact fun ended more => uses_ended ended more
  · exact fun _ _ _ failed => inView.fails failed

/-- A lexer that looks ahead over a comment before it moves, and looks back in between. -/
theorem uses_inStep_commented :
    let source := Source.ofBody "a # b\n, c"
    let uses : List Use := [.ask .lookahead, .ask .advance, .prevOf 1, .ask .lookahead, .token,
      .ask .lookahead, .ask .advance, .lastToken]
    (∀ answer ∈ ((ofSource source).uses uses).1, answer.isOk = true) ∧ advances uses = 2 ∧
      InStep source 2 ((ofSource source).uses uses).2 := by
  intro source uses
  have clean : ∀ answer ∈ ((ofSource source).uses uses).1, answer.isOk = true := by
    decide +kernel
  have moved : advances uses = 2 := by decide
  refine ⟨clean, moved, ?_⟩
  rw [← moved]
  exact uses_inStep rfl clean

end Lexer

end GraphQL

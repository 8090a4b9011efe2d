import GraphQL.Proofs.Parser.Steps
import GraphQL.Proofs.Rules
import GraphQL.Proofs.Tokens

/-!
How parsers move. A parser never goes back, so what it has read is the list of lexemes that it
moved past. Each step is described by the lexemes it takes and the state it leaves, once for
steps that succeeded and once for lexemes that lie ahead.
-/

namespace GraphQL.Parser

section
variable {first : Parser α} {next : α → Parser β} {s s₁ s' : State} {part : α} {result : β}

theorem bind_ok (parsed : (first >>= next) s = .ok result s') :
    ∃ part s₁, first s = .ok part s₁ ∧ next part s₁ = .ok result s' := by
  simp only [bind, EStateM.bind] at parsed
  split at parsed
  · rename_i part s₁ done
    exact ⟨part, s₁, done, parsed⟩
  · cases parsed

theorem bind_eq (done : first s = .ok part s₁) (next : α → Parser β) :
    (first >>= next) s = next part s₁ := by
  simp only [bind, EStateM.bind, done]

theorem current_eq (s : State) (next : Token → Parser β) :
    (current >>= next) s = next s.current s := rfl

theorem rounds_eq (s : State) (next : Nat → Parser β) :
    (rounds >>= next) s = next (s.upcoming.items.length + 2) s := rfl

end

/-- The lexemes that are moved past on the way from one state to another. -/
inductive Moves : State → List Lexeme → State → Prop
  | stay {s : State} : Moves s [] s
  | step {s s₁ s' : State} {tail : List Lexeme} (moved : advance s = .ok () s₁)
      (onward : Moves s₁ tail s') : Moves s (s.current.lexeme :: tail) s'

namespace Moves

variable {s s₁ s' : State} {first second : List Lexeme}

theorem append (starts : Moves s first s₁) (ends : Moves s₁ second s') :
    Moves s (first ++ second) s' := by
  induction starts with
  | stay => exact ends
  | step moved _ ih => exact step moved (ih ends)

theorem split (whole : Moves s (first ++ second) s') :
    ∃ s₁, Moves s first s₁ ∧ Moves s₁ second s' := by
  induction first generalizing s with
  | nil => exact ⟨s, stay, whole⟩
  | cons found rest ih =>
      cases whole with
      | step moved onward =>
          obtain ⟨s₁, starts, ends⟩ := ih onward
          exact ⟨s₁, step moved starts, ends⟩

theorem uncons {found : Lexeme} (whole : Moves s (found :: second) s') :
    ∃ s₁, Moves s [found] s₁ ∧ Moves s₁ second s' := by
  cases whole with
  | step moved onward => exact ⟨_, step moved stay, onward⟩

theorem head {found : Lexeme} (moves : Moves s (found :: first) s') :
    s.current.lexeme = found := by
  cases moves
  rfl

theorem nil_eq (moves : Moves s [] s') : s = s' := by
  cases moves
  rfl

theorem one {found : Lexeme} (moves : Moves s [found] s') :
    s.current.lexeme = found ∧ advance s = .ok () s' := by
  cases moves with
  | step moved onward =>
      cases onward
      exact ⟨rfl, moved⟩

theorem at_mark {mark : Lexeme} (moves : Moves s first s')
    (heads : ∀ next ∈ first.head?, next = mark) :
    s.current.lexeme = mark ∨ s.current.lexeme = s'.current.lexeme := by
  cases moves with
  | stay => exact .inr rfl
  | step _ _ => exact .inl (heads _ rfl)

theorem ne_of_heads {mark other : Lexeme} (moves : Moves s first s')
    (heads : ∀ next ∈ first.head?, next = mark) (apart : mark ≠ other)
    (behind : s'.current.lexeme ≠ other) : s.current.lexeme ≠ other := by
  rcases moves.at_mark heads with same | same
  · rwa [same]
  · rwa [same]

theorem of_advance {found : Lexeme} (ahead : s.current.lexeme = found)
    (moved : advance s = .ok () s') : Moves s [found] s' := by
  subst ahead
  exact step moved stay

end Moves

theorem advance_ok {s s' : State} (moved : advance s = .ok () s') :
    s'.options = s.options ∧ (.ok s'.current, s'.upcoming) = s.upcoming.next := by
  have steps := advanced s
  rw [moved] at steps
  cases steps with
  | ended next _ => exact ⟨rfl, next.symm⟩
  | counted next _ _ => exact ⟨rfl, next.symm⟩

theorem Moves.options {s s' : State} {lexemes : List Lexeme} (moves : Moves s lexemes s') :
    s'.options = s.options := by
  induction moves with
  | stay => rfl
  | step moved _ ih => exact ih.trans (advance_ok moved).1

/-! Nodes that nest. The number of open nodes does not matter for how a state moves, and moving
does not change it. -/

theorem advance_atDepth {s s' : State} (moved : advance s = .ok () s') (depth : Nat) :
    advance (s.atDepth depth) = .ok () (s'.atDepth depth) := by
  have steps := advanced s
  rw [moved] at steps
  cases steps with
  | ended next ends => exact advance_eq_of_advanced (.ended next ends)
  | counted next goesOn within => exact advance_eq_of_advanced (.counted next goesOn within)

theorem advance_depth {s s' : State} (moved : advance s = .ok () s') : s'.depth = s.depth := by
  have steps := advanced s
  rw [moved] at steps
  cases steps <;> rfl

namespace Moves

variable {s s' : State} {lexemes : List Lexeme}

theorem atDepth (moves : Moves s lexemes s') (depth : Nat) :
    Moves (s.atDepth depth) lexemes (s'.atDepth depth) := by
  induction moves with
  | stay => exact stay
  | step moved _ ih => exact step (advance_atDepth moved depth) ih

theorem depth (moves : Moves s lexemes s') : s'.depth = s.depth := by
  induction moves with
  | stay => rfl
  | step moved _ ih => exact ih.trans (advance_depth moved)

theorem opened (moves : Moves s lexemes s') : Moves s.opened lexemes s'.opened := by
  have inside := moves.atDepth (s.depth + 1)
  have same : s'.opened = s'.atDepth (s.depth + 1) := by rw [State.opened, moves.depth]
  rwa [same]

theorem closed (moves : Moves s.opened lexemes s') : Moves s lexemes s'.closed := by
  have around := moves.atDepth s.depth
  have same : s'.depth = s.depth + 1 := moves.depth
  have back : s'.closed = s'.atDepth s.depth := by rw [State.closed, same, Nat.add_sub_cancel]
  rwa [back]

end Moves

theorem nested_ok {body : Parser α} {s s' : State} {result : α}
    (parsed : nested body s = .ok result s') :
    s.depth < s.options.maxNestingDepth ∧
      ∃ s₁, body s.opened = .ok result s₁ ∧ s' = s₁.closed := by
  unfold nested at parsed
  split at parsed
  · rename_i free
    cases inside : body s.opened with
    | ok found s₁ =>
        rw [inside] at parsed
        cases parsed
        exact ⟨free, s₁, rfl, rfl⟩
    | error e s₁ =>
        rw [inside] at parsed
        cases parsed
  · cases parsed

theorem nested_eq {body : Parser α} {s s' : State} {result : α}
    (free : s.depth < s.options.maxNestingDepth)
    (inside : body s.opened = .ok result s'.opened) : nested body s = .ok result s' := by
  simp only [nested, if_pos free, inside, State.closed_opened]

/-! Single steps, from success and towards it. -/

section
variable {s s' : State} {kind : TokenKind} {keyword : String}

theorem fail_ne_ok {token : Token} {complaint : Complaint} {result : α} :
    (fail token complaint : Parser α) s ≠ .ok result s' := by
  rintro ⟨⟩

theorem expect_ok {done : Unit} (parsed : expect kind s = .ok done s') :
    s.current.kind = kind ∧ advance s = .ok () s' := by
  unfold expect at parsed
  rw [current_eq] at parsed
  split at parsed
  · exact ⟨‹_›, parsed⟩
  · exact absurd parsed fail_ne_ok

theorem expect_eq (ahead : s.current.kind = kind) : expect kind s = advance s := by
  unfold expect
  rw [current_eq, if_pos ahead]

theorem accept_ok {taken : Bool} (parsed : accept kind s = .ok taken s') :
    (taken = true ∧ s.current.kind = kind ∧ advance s = .ok () s') ∨
      (taken = false ∧ s.current.kind ≠ kind ∧ s = s') := by
  unfold accept at parsed
  rw [current_eq] at parsed
  split at parsed
  · obtain ⟨_, s₁, moved, parsed⟩ := bind_ok parsed
    cases parsed
    exact .inl ⟨rfl, ‹_›, moved⟩
  · cases parsed
    exact .inr ⟨rfl, ‹_›, rfl⟩

theorem accept_true (ahead : s.current.kind = kind) (moved : advance s = .ok () s') :
    accept kind s = .ok true s' := by
  unfold accept
  rw [current_eq, if_pos ahead, bind_eq moved]
  rfl

theorem accept_false (ahead : s.current.kind ≠ kind) : accept kind s = .ok false s := by
  unfold accept
  rw [current_eq, if_neg ahead]
  rfl

theorem expectKeyword_ok {done : Unit} (parsed : expectKeyword keyword s = .ok done s') :
    Moves s [.name keyword] s' := by
  unfold expectKeyword at parsed
  rw [current_eq] at parsed
  split at parsed
  · exact .of_advance ‹_› parsed
  · exact absurd parsed fail_ne_ok

theorem expectKeyword_eq (moves : Moves s [.name keyword] s') :
    expectKeyword keyword s = .ok () s' := by
  obtain ⟨ahead, moved⟩ := moves.one
  unfold expectKeyword
  rw [current_eq, if_pos ahead, moved]

theorem acceptKeyword_ok {taken : Bool} (parsed : acceptKeyword keyword s = .ok taken s') :
    (taken = true ∧ Moves s [.name keyword] s') ∨
      (taken = false ∧ s.current.lexeme ≠ .name keyword ∧ s = s') := by
  unfold acceptKeyword at parsed
  rw [current_eq] at parsed
  split at parsed
  · obtain ⟨_, s₁, moved, parsed⟩ := bind_ok parsed
    cases parsed
    exact .inl ⟨rfl, .of_advance ‹_› moved⟩
  · cases parsed
    exact .inr ⟨rfl, ‹_›, rfl⟩

theorem acceptKeyword_true (moves : Moves s [.name keyword] s') :
    acceptKeyword keyword s = .ok true s' := by
  obtain ⟨ahead, moved⟩ := moves.one
  unfold acceptKeyword
  rw [current_eq, if_pos ahead, bind_eq moved]
  rfl

theorem acceptKeyword_false (ahead : s.current.lexeme ≠ .name keyword) :
    acceptKeyword keyword s = .ok false s := by
  unfold acceptKeyword
  rw [current_eq, if_neg ahead]
  rfl

theorem lookahead_ok {token : Token} (parsed : lookahead s = .ok token s') : s = s' := by
  have steps := looked s
  rw [parsed] at steps
  cases steps <;> rfl

theorem lookahead_eq {found next : Lexeme} {rest : List Lexeme} (goesOn : found ≠ .eof)
    (moves : Moves s (found :: next :: rest) s') :
    ∃ token, lookahead s = .ok token s ∧ token.lexeme = next := by
  cases moves with
  | step moved onward =>
      obtain ⟨_, ahead⟩ := advance_ok moved
      refine ⟨_, ?_, onward.head⟩
      simp only [lookahead, if_neg goesOn, ← ahead]

theorem span_ok {start : Token} {loc : Option Location} (parsed : span start s = .ok loc s') :
    s = s' ∧ s.options.allowsLoc loc = true := by
  cases parsed
  refine ⟨rfl, ?_⟩
  unfold Options.allowsLoc
  split <;> simp_all

/-- Most productions end with the location of what they have made, and the options allow it. -/
theorem located_allowed {start : Token} {make : Option Location → α} {found : α}
    (parsed : (do return make (← span start) : Parser α) s = .ok found s') :
    ∃ loc, found = make loc ∧ s' = s ∧ s.options.allowsLoc loc = true := by
  obtain ⟨loc, s₁, spanned, parsed⟩ := bind_ok parsed
  obtain ⟨rfl, allowed⟩ := span_ok spanned
  cases parsed
  exact ⟨loc, rfl, rfl, allowed⟩

theorem span_eq (bare : s.options.noLocation = true) (start : Token) :
    span start s = .ok none s := by
  simp only [span, bare, if_true]

end

def Fixes (kind : TokenKind) (lexeme : Lexeme) : Prop :=
  ∀ found : Lexeme, found.kind = kind ↔ found = lexeme

theorem fixes_mark (mark : Punctuator) : Fixes (.punctuator mark) (.punctuator mark) := by
  intro found
  cases found <;> simp [Lexeme.kind]

theorem fixes_sof : Fixes .sof .sof := by
  intro found
  cases found <;> simp [Lexeme.kind]

theorem fixes_eof : Fixes .eof .eof := by
  intro found
  cases found <;> simp [Lexeme.kind]

section
variable {s s' : State} {kind : TokenKind} {lexeme : Lexeme} (fixes : Fixes kind lexeme)
include fixes

theorem Fixes.expect_ok {done : Unit} (parsed : expect kind s = .ok done s') :
    Moves s [lexeme] s' := by
  obtain ⟨ahead, moved⟩ := Parser.expect_ok parsed
  exact .of_advance ((fixes _).mp ahead) moved

theorem Fixes.expect_eq (moves : Moves s [lexeme] s') : expect kind s = .ok () s' := by
  obtain ⟨ahead, moved⟩ := moves.one
  rw [Parser.expect_eq ((fixes _).mpr ahead), moved]

theorem Fixes.accept_ok {taken : Bool} (parsed : accept kind s = .ok taken s') :
    (taken = true ∧ Moves s [lexeme] s') ∨
      (taken = false ∧ s.current.lexeme ≠ lexeme ∧ s = s') := by
  rcases Parser.accept_ok parsed with ⟨taken, ahead, moved⟩ | ⟨passed, other, same⟩
  · exact .inl ⟨taken, .of_advance ((fixes _).mp ahead) moved⟩
  · exact .inr ⟨passed, fun same => other ((fixes _).mpr same), same⟩

theorem Fixes.accept_true (moves : Moves s [lexeme] s') : accept kind s = .ok true s' := by
  obtain ⟨ahead, moved⟩ := moves.one
  exact Parser.accept_true ((fixes _).mpr ahead) moved

theorem Fixes.accept_false (ahead : s.current.lexeme ≠ lexeme) : accept kind s = .ok false s :=
  Parser.accept_false fun same => ahead ((fixes _).mp same)

end

end GraphQL.Parser

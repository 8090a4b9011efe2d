import GraphQL.Proofs.Parser.Reads.Value
import GraphQL.Proofs.Parser.Spans.Tokens
import GraphQL.Proofs.Parser.Text

/-!
The parser of constants beside the parser of values. They take the same steps up to the first
variable, and there the parser of constants fails.
-/

namespace GraphQL.Parser

/-- Lexemes none of which is the sign of a variable or the end of the text. -/
def Bare (used : List Lexeme) : Prop :=
  ∀ found ∈ used, found ≠ .punctuator .dollar ∧ found ≠ .eof

theorem Bare.append {first second : List Lexeme} (left : Bare first) (right : Bare second) :
    Bare (first ++ second) := by
  intro found member
  rcases List.mem_append.mp member with here | there
  · exact left found here
  · exact right found there

/-- The error names the first variable ahead of a state and stands at its sign. -/
inductive NamesFirst (s : State) : SyntaxError → Prop
  | ahead {used : List Lexeme} {s₁ s₂ : State} {text : String} (moves : Moves s used s₁)
      (bare : Bare used) (sign : Moves s₁ [.punctuator .dollar] s₂)
      (named : s₂.current.lexeme = .name text) :
      NamesFirst s ((Complaint.constVariable text).error s₁.source s₁.current)

/-- What a parser of constants answers, and what a parser of values does in its place: the same,
which then is constant, or an error at the first variable instead of what is not constant. -/
inductive Restricted (const : α → Bool) (s : State) :
    EStateM.Result SyntaxError State α → EStateM.Result SyntaxError State α → Prop
  | same {result : α} {used : List Lexeme} {s' : State} (isConst : const result = true)
      (moves : Moves s used s') (bare : Bare used) :
      Restricted const s (.ok result s') (.ok result s')
  | refused {result : α} {error : SyntaxError} {s' s₁ : State} (varies : const result = false)
      (first : NamesFirst s error) : Restricted const s (.error error s₁) (.ok result s')
  | failed {error error' : SyntaxError} {s₁ s₂ : State} :
      Restricted const s (.error error s₁) (.error error' s₂)

section
variable {s s₁ s' : State} {used : List Lexeme}

theorem NamesFirst.behind {error : SyntaxError} (moves : Moves s used s₁) (bare : Bare used)
    (names : NamesFirst s₁ error) : NamesFirst s error := by
  cases names with
  | ahead onward clear sign named =>
      exact .ahead (moves.append onward) (bare.append clear) sign named

theorem NamesFirst.closed {error : SyntaxError} (names : NamesFirst s.opened error) :
    NamesFirst s error := by
  cases names with
  | ahead moves bare sign named =>
      have there := NamesFirst.ahead moves.closed bare (sign.atDepth _) named
      exact there

theorem Restricted.shared {parser : Parser α} {const : α → Bool}
    (reads : ∀ {result : α} {s' : State}, parser s = .ok result s' →
      const result = true ∧ ∃ used, Moves s used s' ∧ Bare used) :
    Restricted const s (parser s) (parser s) := by
  cases parsed : parser s with
  | ok result s' =>
      obtain ⟨isConst, used, moves, bare⟩ := reads parsed
      exact .same isConst moves bare
  | error error s' => exact .failed

theorem Restricted.stay {const : α → Bool} {result : α} (isConst : const result = true) :
    Restricted const s (.ok result s) (.ok result s) :=
  .same isConst .stay fun _ member => absurd member List.not_mem_nil

theorem Restricted.nested {strict free : Parser α} {const : α → Bool}
    (inside : Restricted const s.opened (strict s.opened) (free s.opened)) :
    Restricted const s (nested strict s) (nested free s) := by
  unfold Parser.nested
  split
  · generalize strict s.opened = answer at inside ⊢
    generalize free s.opened = answer' at inside ⊢
    cases inside with
    | same isConst moves bare => exact .same isConst moves.closed bare
    | refused varies names => exact .refused varies names.closed
    | failed => exact .failed
  · exact .failed

/-- Steps go together one after the other, if what comes of a part is constant with it. -/
theorem Restricted.bind {strict free : Parser α} {more others : α → Parser β} {part : α → Bool}
    {whole : β → Bool} (first : Restricted part s (strict s) (free s))
    (next : ∀ {given : α} {s₁ : State}, part given = true →
      Restricted whole s₁ (more given s₁) (others given s₁))
    (varies : ∀ {given : α} {s₁ s' : State} {result : β}, part given = false →
      others given s₁ = .ok result s' → whole result = false) :
    Restricted whole s ((strict >>= more) s) ((free >>= others) s) := by
  simp only [Bind.bind, EStateM.bind]
  generalize strict s = answer at first ⊢
  generalize free s = answer' at first ⊢
  cases first with
  | @same given used s₁ isConst moves bare =>
      dsimp only
      have onward : Restricted whole s₁ (more given s₁) (others given s₁) := next isConst
      generalize more given s₁ = outcome at onward ⊢
      generalize others given s₁ = outcome' at onward ⊢
      cases onward with
      | same wholeConst onward clear =>
          exact .same wholeConst (moves.append onward) (bare.append clear)
      | refused wholeVaries names =>
          exact .refused wholeVaries (names.behind moves bare)
      | failed => exact .failed
  | @refused given error s₁ s₂ partVaries names =>
      dsimp only
      cases parsed : others given s₁ with
      | ok result s' => exact .refused (varies partVaries parsed) names
      | error error' s' => exact .failed
  | failed => exact .failed

theorem Restricted.node {strict free : Parser α} {part : α → Bool} {whole : β → Bool}
    {make : α → Option Location → β} {start : Token}
    (first : Restricted part s (strict s) (free s))
    (isPart : ∀ given loc, whole (make given loc) = part given) :
    Restricted whole s ((do let given ← strict; return make given (← span start) : Parser β) s)
      ((do let given ← free; return make given (← span start) : Parser β) s) := by
  apply first.bind
  · intro given s₁ isConst
    exact .stay (by rw [isPart, isConst])
  · rintro given s₁ s' result varies ⟨⟩
    rw [isPart, varies]

theorem Bare.mark {mark : Punctuator} (other : mark ≠ .dollar) : Bare [.punctuator mark] := by
  intro found member
  obtain rfl := List.mem_singleton.mp member
  simp [other]

theorem expect_restricted {mark : Punctuator} (other : mark ≠ .dollar) :
    Restricted (fun _ => true) s (expect (.punctuator mark) s) (expect (.punctuator mark) s) :=
  .shared fun parsed => ⟨rfl, _, (fixes_mark mark).expect_ok parsed, .mark other⟩

theorem accept_restricted {mark : Punctuator} (other : mark ≠ .dollar) :
    Restricted (fun _ => true) s (accept (.punctuator mark) s) (accept (.punctuator mark) s) := by
  apply Restricted.shared
  intro taken s' parsed
  rcases (fixes_mark mark).accept_ok parsed with ⟨_, moves⟩ | ⟨_, _, rfl⟩
  · exact ⟨rfl, _, moves, .mark other⟩
  · exact ⟨rfl, [], .stay, fun _ member => absurd member List.not_mem_nil⟩

theorem name_restricted : Restricted (fun _ => true) s (name s) (name s) := by
  apply Restricted.shared
  intro found s' parsed
  obtain ⟨moves, _⟩ := name_reads (Eq.refl s.options) parsed
  refine ⟨rfl, _, moves, ?_⟩
  intro lexeme member
  obtain rfl := List.mem_singleton.mp member
  simp

section
variable {strict free : Parser α} {const : α → Bool}
  (each : ∀ s, Restricted const s (strict s) (free s))
include each

theorem anyUntil_restricted {mark : Punctuator} (other : mark ≠ .dollar) (rounds : Nat)
    (s : State) :
    Restricted (List.all · const) s (anyUntil (.punctuator mark) strict rounds s)
      (anyUntil (.punctuator mark) free rounds s) := by
  induction rounds generalizing s with
  | zero => exact .failed
  | succ rounds ih =>
      unfold anyUntil
      apply (accept_restricted other).bind
      · intro taken s₁ _
        cases taken with
        | true => exact .stay rfl
        | false =>
            apply (each s₁).bind
            · intro first s₂ firstConst
              apply (ih s₂).bind
              · intro rest s₃ restConst
                exact .stay (by simp [firstConst, restConst])
              · rintro rest s₃ s' result varies ⟨⟩
                simp [varies]
            · intro first s₂ s' result varies parsed
              obtain ⟨rest, s₃, _, parsed⟩ := bind_ok parsed
              cases parsed
              simp [varies]
      · simp

theorem any_restricted {opening closing : Punctuator} (other : opening ≠ .dollar)
    (another : closing ≠ .dollar) (s : State) :
    Restricted (List.all · const) s (any (.punctuator opening) strict (.punctuator closing) s)
      (any (.punctuator opening) free (.punctuator closing) s) := by
  unfold any
  apply (expect_restricted other).bind
  · intro _ s₁ _
    rw [rounds_eq, rounds_eq]
    exact anyUntil_restricted each another _ s₁
  · simp

end

theorem Value.allConst_eq (items : List Value) :
    GraphQL.Value.allConst items = items.all (·.isConst) := by
  induction items with
  | nil => rfl
  | cons item rest ih => rw [GraphQL.Value.allConst, ih, List.all_cons]

theorem Value.allFieldsConst_eq (fields : List ObjectField) :
    GraphQL.Value.allFieldsConst fields = fields.all (·.value.isConst) := by
  induction fields with
  | nil => rfl
  | cons field rest ih =>
      cases field
      rw [GraphQL.Value.allFieldsConst, ih, List.all_cons]

theorem variable_restricted :
    Restricted Value.isConst s (refuseVariable s)
      ((do return .var (← variableRef) : Parser Value) s) := by
  cases refused : refuseVariable s with
  | ok found s' => exact absurd refused refuseVariable_ne_ok
  | error error s' =>
      cases parsed : (do return .var (← variableRef) : Parser Value) s with
      | error error' s₂ => exact .failed
      | ok found s₂ =>
          obtain ⟨reference, s₁, read, done⟩ := bind_ok parsed
          cases done
          apply Restricted.refused rfl
          obtain ⟨inner, loc⟩ := reference
          obtain ⟨moves, _⟩ := variableRef_reads (Eq.refl s.options) read
          obtain ⟨s₃, first, onward⟩ := Moves.uncons moves
          have named : s₃.current.lexeme = .name inner.value := onward.head
          have failed : refuseVariable s =
              .error ((Complaint.constVariable inner.value).error s₃.source s.current) s₃ := by
            unfold refuseVariable
            rw [current_eq, bind_eq ((fixes_mark .dollar).expect_eq first), current_eq]
            simp only [named]
            rfl
          rw [failed] at refused
          cases refused
          rw [first.source]
          exact .ahead .stay (fun _ member => absurd member List.not_mem_nil) first named

theorem objectField_restricted {strict free : Parser Value}
    (each : ∀ s, Restricted Value.isConst s (strict s) (free s)) (s : State) :
    Restricted (·.value.isConst) s (objectField strict s) (objectField free s) := by
  unfold objectField
  rw [current_eq, current_eq]
  apply name_restricted.bind
  · intro key s₁ _
    apply (expect_restricted (by decide)).bind
    · intro _ s₂ _
      exact (each s₂).node fun _ _ => rfl
    · simp
  · simp

theorem leaf_restricted {make : Option Location → Value} {lexeme : Lexeme}
    (ahead : s.current.lexeme = lexeme) (plain : lexeme ≠ .punctuator .dollar ∧ lexeme ≠ .eof)
    (isConst : ∀ loc, (make loc).isConst = true) :
    Restricted Value.isConst s ((do advance; return make (← span s.current) : Parser Value) s)
      ((do advance; return make (← span s.current) : Parser Value) s) := by
  apply Restricted.shared
  intro found s' parsed
  obtain ⟨loc, rfl, _, moves⟩ := leaf_reads (Eq.refl s.options) ahead parsed
  refine ⟨isConst loc, _, moves, ?_⟩
  intro lexeme member
  obtain rfl := List.mem_singleton.mp member
  exact plain

theorem string_restricted (isString : s.current.kind = .string ∨ s.current.kind = .blockString) :
    Restricted Value.isConst s ((do return .string (← stringValue) : Parser Value) s)
      ((do return .string (← stringValue) : Parser Value) s) := by
  apply Restricted.shared
  intro found s' parsed
  obtain ⟨literal, s₁, read, parsed⟩ := bind_ok parsed
  cases parsed
  obtain ⟨moves, _⟩ := stringValue_reads (Eq.refl s.options) isString read
  refine ⟨rfl, _, moves, ?_⟩
  intro lexeme member
  obtain rfl := List.mem_singleton.mp member
  unfold StringValue.lexeme
  split <;> simp

theorem namedValue_isConst (text : String) (loc : Option Location) :
    (namedValue text loc).isConst = true := by
  unfold namedValue
  split <;> rfl

theorem valueBody_restricted {strict free : Parser Value}
    (each : ∀ s, Restricted Value.isConst s (strict s) (free s)) (s : State) :
    Restricted Value.isConst s (valueBody true strict s) (valueBody false free s) := by
  unfold valueBody
  rw [current_eq, current_eq]
  cases ahead : s.current.lexeme with
  | int text | float text =>
      exact leaf_restricted ahead (by simp) fun _ => rfl
  | name text =>
      exact leaf_restricted ahead (by simp) (namedValue_isConst text)
  | string text =>
      exact string_restricted (.inl (by simp [Token.kind, ahead, Lexeme.kind]))
  | blockString text =>
      exact string_restricted (.inr (by simp [Token.kind, ahead, Lexeme.kind]))
  | punctuator mark =>
      cases mark with
      | bracketOpen =>
          apply (any_restricted each (by decide) (by decide) s).node
          intro items loc
          exact Value.allConst_eq items
      | braceOpen =>
          apply (any_restricted (objectField_restricted each) (by decide) (by decide) s).node
          intro fields loc
          exact Value.allFieldsConst_eq fields
      | dollar =>
          exact variable_restricted
      | _ =>
          exact .failed
  | sof | eof | comment text =>
      exact .failed

theorem value_restricted (levels : Nat) (s : State) :
    Restricted Value.isConst s (value true levels s) (value false levels s) := by
  induction levels generalizing s with
  | zero => exact .failed
  | succ levels ih => exact (valueBody_restricted ih s.opened).nested

def atEnd (result : α) : Parser α := do
  expect .eof
  return result

theorem atEnd_ok {part result : α} {s s' : State} (parsed : atEnd part s = .ok result s') :
    result = part := by
  obtain ⟨_, s₁, _, done⟩ := bind_ok parsed
  cases done
  rfl

theorem whole_eq (item : Parser α) :
    whole item = (expect .sof >>= fun _ => item) >>= atEnd := by
  unfold whole atEnd
  simp only [bind_assoc]

theorem Restricted.ends {strict free : Parser α} {const : α → Bool}
    (begun : Restricted const s (strict s) (free s)) :
    (∀ result, (∃ s', (strict >>= atEnd) s = .ok result s') ↔
      (∃ s', (free >>= atEnd) s = .ok result s') ∧ const result = true) ∧
    ∀ result s', (free >>= atEnd) s = .ok result s' → const result = false →
      ∃ error s₁, (strict >>= atEnd) s = .error error s₁ ∧ NamesFirst s error := by
  simp only [Bind.bind, EStateM.bind]
  generalize strict s = answer at begun ⊢
  generalize free s = answer' at begun ⊢
  cases begun with
  | same isConst moves bare =>
      constructor
      · intro result
        constructor
        · rintro ⟨s', parsed⟩
          exact ⟨⟨s', parsed⟩, by rw [atEnd_ok parsed, isConst]⟩
        · exact And.left
      · intro result s' parsed varies
        rw [atEnd_ok parsed, isConst] at varies
        cases varies
  | refused varies names =>
      constructor
      · intro result
        constructor
        · rintro ⟨_, ⟨⟩⟩
        · rintro ⟨⟨s', parsed⟩, isConst⟩
          rw [atEnd_ok parsed, varies] at isConst
          cases isConst
      · intro result s' parsed _
        exact ⟨_, _, rfl, names⟩
  | failed => simp

/-- All of a text is a constant if and only if it is a value and that is constant. A text that is a
value but not a constant is refused at its first variable. -/
theorem whole_restricted {strict free : Parser α} {const : α → Bool}
    (each : ∀ s, Restricted const s (strict s) (free s)) (source : Source) (options : Options) :
    (∀ result, (whole strict).run source options = .ok result ↔
      (whole free).run source options = .ok result ∧ const result = true) ∧
    ∀ result, (whole free).run source options = .ok result → const result = false →
      ∃ error, (whole strict).run source options = .error error ∧
        NamesFirst (.ofSource source options) error := by
  have begins : Restricted (fun _ => true) (.ofSource source options)
      (expect .sof (.ofSource source options)) (expect .sof (.ofSource source options)) := by
    apply Restricted.shared
    intro _ s' parsed
    refine ⟨rfl, _, fixes_sof.expect_ok parsed, ?_⟩
    intro lexeme member
    obtain rfl := List.mem_singleton.mp member
    simp
  have begun : Restricted const (.ofSource source options)
      ((expect .sof >>= fun _ => strict) (.ofSource source options))
      ((expect .sof >>= fun _ => free) (.ofSource source options)) := by
    apply begins.bind
    · intro _ s₁ _
      exact each s₁
    · simp
  have ended := begun.ends
  rw [← whole_eq, ← whole_eq] at ended
  constructor
  · intro result
    rw [run_ok, run_ok]
    exact ended.1 result
  · intro result parsed varies
    obtain ⟨s', read⟩ := run_ok.mp parsed
    obtain ⟨error, s₁, failed, names⟩ := ended.2 result s' read varies
    exact ⟨error, by simp only [run, EStateM.run, failed], names⟩

end

end GraphQL.Parser

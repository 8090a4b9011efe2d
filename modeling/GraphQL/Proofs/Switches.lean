import GraphQL.Proofs.Parser.Located

/-!
The two switches among the options are conservative. Locations annotate a tree and decide
nothing, and variables of fragments are refused where they stand or else change nothing.
-/

namespace GraphQL

def Options.declaring (options : Options) (allowed : Bool) : Options :=
  { options with fragmentVariables := allowed }

def Document.LacksFragmentVariables (document : Document) : Prop :=
  ∀ definition ∈ document.definitions, definition.fragmentVariables = []

namespace Parser

def plainHead : Parser (List VariableDefinition) := do
  expectKeyword "on"
  return []

section
variable {s : State} (levels : Nat)

theorem fragmentHead_refused (refused : s.options.fragmentVariables = false) :
    fragmentHead levels s = plainHead s := by
  have asked : allowsFragmentVariables s = .ok false s := by rw [allowsFragmentVariables, refused]
  have none : fragmentVariables levels s = .ok [] s := by
    rw [fragmentVariables, bind_eq asked]
    rfl
  rw [fragmentHead, bind_eq none]
  rfl

theorem fragmentHead_plain (ahead : s.current.kind ≠ .punctuator .parenOpen) :
    fragmentHead levels s = plainHead s := by
  cases allowed : s.options.fragmentVariables with
  | false => exact fragmentHead_refused levels allowed
  | true =>
      have asked : allowsFragmentVariables s = .ok true s := by
        rw [allowsFragmentVariables, allowed]
      have none : fragmentVariables levels s = .ok [] s := by
        rw [fragmentVariables, bind_eq asked, if_pos rfl, variableDefinitions, optionalMany,
          bind_eq (accept_false ahead)]
        rfl
      rw [fragmentHead, bind_eq none]
      rfl

theorem plainHead_ne_ok {s' : State} {declared : List VariableDefinition}
    (ahead : s.current.kind = .punctuator .parenOpen) : plainHead s ≠ .ok declared s' := by
  intro parsed
  obtain ⟨_, s₁, word, _⟩ := bind_ok parsed
  rw [Token.kind, (expectKeyword_ok word).head] at ahead
  cases ahead

end

theorem map_of_answers {change : α → β} {first : Except SyntaxError α}
    {second : Except SyntaxError β} {options : Options}
    (answers : (bared options).Answers change first second) : second = first.map change := by
  cases first with
  | ok found => exact answers
  | error e =>
      rcases answers with none | ⟨f, rfl, rfl⟩
      · exact none.elim
      · rfl

/-- Two runs over the same text, of which only the second lets fragments declare variables. What
the first refuses, the second need not refuse. -/
def permitted (options : Options) : Pairing where
  states s t := s.options = options.declaring false ∧ True ∧ t = s.under (options.declaring true)
  tokens := Eq
  errors _ _ := True
  levels := Eq
  relocate := id
  excused _ := True
  leads _ _ := True

section
variable {options : Options} {source : Source} {document : Document}

theorem permitted_optioned :
    (permitted options).Optioned (options.declaring false) (options.declaring true)
      (fun _ => True) where
  states_iff := Iff.rfl
  tokens_iff := Iff.rfl
  keeps := .always
  relocate _ := rfl
  opened := Nat.succ.inj
  closed := id
  reads _ _ := trivial
  fails _ _ _ := trivial
  counts _ _ _ _ _ := .inl trivial
  fewer := .inl rfl
  nests _ _ := .inl trivial
  atMost := Nat.le_refl _
  advance_leads _ _ _ := trivial
  lookahead_leads _ _ _ := trivial
  nested_leads _ _ _ := trivial

theorem permitted_fragmentHeads : (permitted options).FragmentHeads := by
  intro n m _ s t alike
  have plain : (permitted options).Maps (List.map (VariableDefinition.relocate id)) plainHead
      plainHead :=
    (permitted_optioned.lawful.expectKeyword_maps _).bind fun _ => Pairing.agree_pure rfl
  have outcome := plain s t alike
  obtain ⟨strict, _, rfl⟩ := alike
  rw [fragmentHead_refused n (by rw [strict]; rfl)]
  by_cases opens : s.current.kind = .punctuator .parenOpen
  · cases parsed : plainHead s with
    | error e s' => exact ⟨fun _ _ => trivial, .inl trivial⟩
    | ok declared s' => exact absurd parsed (plainHead_ne_ok opens)
  · have ahead : (s.under (options.declaring true)).current.kind ≠ .punctuator .parenOpen := opens
    rwa [fragmentHead_plain m ahead]

/-- What is parsed without variables of fragments is parsed where they are allowed. -/
theorem parse_permitted
    (parsed : Document.parse source (options.declaring false) = .ok document) :
    Document.parse source (options.declaring true) = .ok document := by
  have optioned := @permitted_optioned options
  obtain ⟨answers, _⟩ :=
    optioned.lawful.parse_answers permitted_fragmentHeads (by rfl)
      (optioned.ofSource source trivial)
  rw [parsed] at answers
  rw [← document.relocate_id]
  exact answers

theorem lacksFragmentVariables_of_parse
    (parsed : Document.parse source (options.declaring false) = .ok document) :
    document.LacksFragmentVariables := by
  intro definition member
  have conforms := (Document.conforms_of_parse parsed).1
  simp only [Document.conforms, Bool.and_eq_true, List.all_eq_true] at conforms
  have inner := conforms.1.2 definition member
  cases definition with
  | fragment fragment =>
      simp only [Definition.conforms, FragmentDefinition.conforms, Bool.and_eq_true] at inner
      obtain ⟨⟨⟨⟨⟨⟨_, none⟩, _⟩, _⟩, _⟩, _⟩, _⟩ := inner
      exact List.isEmpty_iff.mp none
  | _ => rfl

/-- A document without variables of fragments is also found where they are refused. -/
theorem parse_refused (parsed : Document.parse source (options.declaring true) = .ok document)
    (lacks : document.LacksFragmentVariables) :
    Document.parse source (options.declaring false) = .ok document := by
  obtain ⟨written, all, _, lexed, kept, listed, _, few⟩ := Document.parse_ok parsed
  have plain := listed_transfer (.between (options.declaring true) (options.declaring false) rfl)
    listed fun definition member => .inr (lacks definition member)
  obtain ⟨found, here, _⟩ := document_parsed ⟨rfl, rfl⟩ lexed (Nat.le_refl _) plain kept.symm few
  have also := parse_permitted here
  rw [parsed] at also
  rw [Except.ok.inj also]
  exact here

end

end Parser

open GraphQL.Parser

/-- Without locations, parsing comes to the same tree without them or to the very same error.
Where fragments may not declare variables, it comes to the same trees, less those in which a
fragment does. -/
theorem parse_conservative (source : Source) (options : Options) :
    Document.parse source options.bare =
        (Document.parse source options.located).map (Document.relocate unlocated) ∧
      ∀ document, Document.parse source (options.declaring false) = .ok document ↔
        Document.parse source (options.declaring true) = .ok document ∧
          document.LacksFragmentVariables := by
  constructor
  · have optioned := @bared_optioned options.located
    obtain ⟨answers, _⟩ := optioned.lawful.parse_answers (optioned.fragmentHeads rfl)
      (by rfl) (optioned.ofSource source trivial)
    exact map_of_answers answers
  · intro document
    constructor
    · intro parsed
      exact ⟨parse_permitted parsed, lacksFragmentVariables_of_parse parsed⟩
    · rintro ⟨parsed, lacks⟩
      exact parse_refused parsed lacks

end GraphQL

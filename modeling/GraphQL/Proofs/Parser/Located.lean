import GraphQL.Proofs.Parser.Pairs.Options
import GraphQL.Proofs.RoundTrip
import GraphQL.Proofs.Unlocated

/-!
Parsing with locations and without them. A parser that gives no locations comes to the same tree
without its locations, or to the same error, and so what is found without locations is also found
with them.
-/

namespace GraphQL

namespace Parser

/-- Two runs over the same text, the second without locations. -/
def bared (options : Options) : Pairing where
  states s t := s.options = options ∧ True ∧ t = s.under options.bare
  tokens := Eq
  errors := Eq
  levels := Eq
  relocate := unlocated
  excused _ := False
  leads _ _ := True

section
variable {options : Options}

theorem bared_optioned : (bared options).Optioned options options.bare (fun _ => True) where
  states_iff := Iff.rfl
  tokens_iff := Iff.rfl
  keeps := .always
  relocate _ := if_pos rfl
  opened := Nat.succ.inj
  closed := id
  reads _ _ := rfl
  fails _ _ _ := rfl
  counts _ _ _ limited _ := .inr ⟨limited, rfl⟩
  fewer := .inl rfl
  nests _ _ := .inr ⟨rfl, rfl, fun _ => Eq.symm⟩
  atMost := Nat.le_refl _
  advance_leads _ _ _ := trivial
  lookahead_leads _ _ _ := trivial
  nested_leads _ _ _ := trivial

theorem found_of_bared {change : α → β} {first : Parser α} {second : Parser β}
    (maps : (bared options).Maps change first second) {source : Source} {b : β}
    (found : second.run source options.bare = .ok b) :
    ∃ a, first.run source options = .ok a ∧ change a = b := by
  have answers := maps.answers (bared_optioned.ofSource source trivial)
  cases parsed : first.run source options with
  | ok a =>
      rw [parsed] at answers
      have same : second.run source options.bare = .ok (change a) := answers
      rw [found] at same
      exact ⟨a, rfl, (Except.ok.inj same).symm⟩
  | error e =>
      rw [parsed] at answers
      rcases answers with none | ⟨f, failed, _⟩
      · exact none.elim
      · rw [found] at failed
        cases failed

end

theorem listed_transfer (transfer : Transfer) {levels : Nat} {definitions : List Definition}
    {used : List Lexeme}
    (listed : Listed (Definition.Fits transfer.before levels) .eof definitions used)
    (declares : ∀ definition ∈ definitions,
      transfer.after.fragmentVariables = transfer.before.fragmentVariables ∨
        definition.fragmentVariables = []) :
    Listed (Definition.Fits transfer.after levels) .eof
      (definitions.map (·.relocate transfer.change)) used := by
  refine listed.map fun {definition used next} member fits => ?_
  obtain ⟨⟨full, spelled⟩, conforms, ends⟩ := fits
  constructor
  · exact ⟨full, by rw [spelled, Definition.lexemes_relocate]⟩
  · rwa [definition.conforms_transfer transfer levels (declares definition member)]
  · rwa [Definition.lacksBraces_relocate]

/-- Options that agree on what a text may have, if not on its depth. -/
structure Agree (options other : Options) : Prop where
  fragmentVariables : other.fragmentVariables = options.fragmentVariables
  maxTokens : other.maxTokens = options.maxTokens

section
variable {options other : Options} (agree : Agree options other) {source : Source}
  {all : List Lexeme} (lexed : Lexed source.chars all) {levels : Nat}
  (room : levels ≤ other.maxNestingDepth)
include agree lexed room

/-- Definitions that fit under some options are parsed from their text under all that agree. -/
theorem document_parsed {used : List Lexeme} {definitions : List Definition}
    (listed : Listed (Definition.Fits options levels) .eof definitions (used ++ [.eof]))
    (kept : used = all.filter fun found => !found.isComment)
    (few : ∀ limit, options.maxTokens = some limit → used.length ≤ limit) :
    ∃ found, (document levels).run source other = .ok found ∧
      (options.noLocation = false →
        found.definitions.map (·.relocate unlocated) = definitions.map (·.relocate unlocated)) := by
  have few : ∀ limit, other.bare.maxTokens = some limit → used.length ≤ limit := by
    rwa [← agree.maxTokens] at few
  obtain ⟨s', moves⟩ := moves_ofLexed lexed kept few
  have parsed {without : Options} (bare : without.noLocation = true)
      (same : without.fragmentVariables = options.fragmentVariables) {definitions : List Definition}
      (listed : Listed (Definition.Fits without levels) .eof definitions (used ++ [.eof])) :
      ∃ found, (document levels).run source other = .ok found ∧
        found.relocate unlocated = ⟨definitions, none⟩ := by
    have ready : (State.ofSource source other.bare).Ready without levels :=
      ready_ofSource source bare.symm (agree.fragmentVariables.trans same.symm) room
    have found : document levels (.ofSource source other.bare) = .ok ⟨definitions, none⟩ s' :=
      document_of_listed bare ready listed rfl moves
    exact found_of_bared
      (bared_optioned.lawful.document_maps rfl (bared_optioned.fragmentHeads rfl))
      (run_ok.mpr ⟨s', found⟩)
  by_cases bare : options.noLocation = true
  · obtain ⟨found, here, _⟩ := parsed bare rfl listed
    exact ⟨found, here, by simp [bare]⟩
  · have located : options.located = options := Options.located_eq (by simpa using bare)
    have listedBare := listed_transfer (.bare options.bare) (located ▸ listed) fun _ _ => .inl rfl
    obtain ⟨found, here, same⟩ := @parsed options.bare rfl rfl _ listedBare
    exact ⟨found, here, fun _ => congrArg Document.definitions same⟩

/-- What conforms under some options is parsed as all of its text under all that agree. -/
theorem whole_parsed {item : Parser α} {spell : α → List Lexeme} (ok : Options → α → Bool)
    (follow : α → Lexeme → Prop) {relocate : α → α}
    (each : ∀ {options : Options}, options.noLocation = true →
      Finds options levels item spell (ok options) follow)
    (maps : ∀ {options : Options}, (bared options).Maps relocate item item)
    (spells : ∀ node, spell (relocate node) = spell node)
    (conforms : ∀ (options : Options) (node : α),
      ok options (relocate node) = ok options.located node)
    (follows : ∀ node, follow node .eof) {node : α} (isOk : ok options node = true)
    (kept : spell node = all.filter fun found => !found.isComment)
    (few : ∀ limit, options.maxTokens = some limit → (spell node).length ≤ limit) :
    ∃ found, (whole item).run source other = .ok found ∧
      (options.noLocation = false → relocate found = relocate node) := by
  have few : ∀ limit, other.bare.maxTokens = some limit → (spell node).length ≤ limit := by
    rwa [← agree.maxTokens] at few
  obtain ⟨s', moves⟩ := moves_ofLexed lexed kept few
  have parsed {without : Options} (bare : without.noLocation = true)
      (same : without.fragmentVariables = options.fragmentVariables) {bareNode : α}
      (spelled : spell bareNode = spell node) (bareOk : ok without bareNode = true) :
      ∃ found, (whole item).run source other = .ok found ∧ relocate found = bareNode := by
    have ready : (State.ofSource source other.bare).Ready without levels :=
      ready_ofSource source bare.symm (agree.fragmentVariables.trans same.symm) room
    rw [← spelled] at moves
    have found := whole_finds (each bare) bareOk (follows bareNode) ready moves
    exact found_of_bared (bared_optioned.lawful.whole_maps maps) (run_ok.mpr ⟨s', found⟩)
  by_cases bare : options.noLocation = true
  · obtain ⟨found, here, _⟩ := parsed bare rfl rfl isOk
    exact ⟨found, here, by simp [bare]⟩
  · have located : options.located = options := Options.located_eq (by simpa using bare)
    have bareOk : ok options.bare (relocate node) = true := by
      rw [conforms]
      show ok options.located node = true
      rwa [located]
    obtain ⟨found, here, same⟩ :=
      @parsed options.bare rfl rfl _ (spells node) bareOk
    exact ⟨found, here, fun _ => same⟩

theorem value_parsed {isConst : Bool} {node : Value}
    (isOk : node.conforms options isConst levels = true)
    (kept : node.lexemes = all.filter fun found => !found.isComment)
    (few : ∀ limit, options.maxTokens = some limit → node.lexemes.length ≤ limit) :
    ∃ found, (whole (value isConst levels)).run source other = .ok found ∧
      (options.noLocation = false → found.relocate unlocated = node.relocate unlocated) :=
  whole_parsed agree lexed room (fun options node => node.conforms options isConst levels)
    (fun _ _ => True) (fun bare => value_finds bare isConst levels)
    (bared_optioned.lawful.value_maps isConst rfl) (Value.lexemes_relocate unlocated)
    (fun options node => node.conforms_transfer (.bare options) isConst levels)
    (fun _ => trivial) isOk kept few

theorem typeRef_parsed {node : TypeRef} (isOk : node.conforms options levels = true)
    (kept : node.lexemes = all.filter fun found => !found.isComment)
    (few : ∀ limit, options.maxTokens = some limit → node.lexemes.length ≤ limit) :
    ∃ found, (whole (typeRef levels)).run source other = .ok found ∧
      (options.noLocation = false → found.relocate unlocated = node.relocate unlocated) :=
  whole_parsed agree lexed room (fun options node => node.conforms options levels)
    (fun _ next => next ≠ .punctuator .bang) (fun bare => typeRef_finds bare levels)
    (bared_optioned.lawful.typeRef_maps rfl) (TypeRef.lexemes_relocate unlocated)
    (fun options node => node.conforms_transfer (.bare options) levels) (fun _ => by simp) isOk
    kept few

end

end Parser

end GraphQL

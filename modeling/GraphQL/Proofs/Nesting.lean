import GraphQL.Proofs.Depth
import GraphQL.Proofs.Parser.Located

/-!
The limit of nesting filters what is parsed: of what a wider limit lets through it refuses the
trees that are deeper than itself, and changes nothing else.
-/

namespace GraphQL

def Options.nesting (options : Options) (levels : Nat) : Options :=
  { options with maxNestingDepth := levels }

/-- The narrower limit answers as the wider one or refuses for the depth, and gives exactly the
trees of the wider one that are no deeper. -/
structure FiltersDepth (depth : α → Nat) (limit : Nat) (narrow wide : Except SyntaxError α) :
    Prop where
  refuses_or_same : (∃ error, narrow = .error error ∧ error.kind = .nestingTooDeep limit) ∨
    narrow = wide
  ok_iff : ∀ tree, narrow = .ok tree ↔ wide = .ok tree ∧ depth tree ≤ limit

namespace Parser

/-- Two runs over the same text, the first with the narrower limit of nesting. What the first
refuses for its depth, the second need not refuse. -/
def narrowed (options : Options) (narrow wide : Nat) : Pairing where
  states s t := s.options = options.nesting narrow ∧ True ∧ t = s.under (options.nesting wide)
  tokens := Eq
  errors := Eq
  levels n m := n ≤ m
  relocate := id
  excused error := error.kind = .nestingTooDeep narrow
  leads _ _ := True

section
variable {options : Options} {narrow wide : Nat}

theorem narrowed_optioned (atMost : narrow ≤ wide) :
    (narrowed options narrow wide).Optioned (options.nesting narrow) (options.nesting wide)
      (fun _ => True) where
  states_iff := Iff.rfl
  tokens_iff := Iff.rfl
  keeps := .always
  relocate _ := rfl
  opened := Nat.le_of_succ_le_succ
  closed := Nat.le_zero.mp
  reads _ _ := rfl
  fails _ _ _ := rfl
  counts _ _ _ limited _ := .inr ⟨limited, rfl⟩
  fewer := .inl rfl
  nests _ _ := .inl rfl
  atMost := atMost
  advance_leads _ _ _ := trivial
  lookahead_leads _ _ _ := trivial
  nested_leads _ _ _ := trivial

theorem filtersDepth {change : α → α} (stays : ∀ tree, change tree = tree) {depth : α → Nat}
    {first second : Except SyntaxError α}
    (answers : (narrowed options narrow wide).Answers change first second)
    (shallow : ∀ tree, first = .ok tree → depth tree ≤ narrow)
    (finds : ∀ tree, second = .ok tree → depth tree ≤ narrow → ∃ found, first = .ok found) :
    FiltersDepth depth narrow first second := by
  have onward : ∀ tree, first = .ok tree → second = .ok tree := by
    rintro tree rfl
    rw [← stays tree]
    exact answers
  constructor
  · cases first with
    | ok tree => exact .inr (onward tree rfl).symm
    | error e =>
        rcases answers with tooDeep | ⟨f, failed, same⟩
        · exact .inl ⟨e, rfl, tooDeep⟩
        · rw [failed, same]
          exact .inr rfl
  · intro tree
    constructor
    · intro parsed
      exact ⟨onward tree parsed, shallow tree parsed⟩
    · rintro ⟨parsed, within⟩
      obtain ⟨found, here⟩ := finds tree parsed within
      have same := onward found here
      rw [parsed] at same
      rw [here, Except.ok.inj same]

theorem listed_within {m n : Nat} {definitions : List Definition} {used : List Lexeme}
    (listed : Listed (Definition.Fits options m) .eof definitions used)
    (within : deepest Definition.depth definitions ≤ n) :
    Listed (Definition.Fits options n) .eof definitions used := by
  have fewer {definition : Definition} {used : List Lexeme} {next : Lexeme}
      (fit : definition.Fits options m used next) (within : definition.depth ≤ n) :
      definition.Fits options n used next :=
    ⟨fit.spelled, (definition_measures options definition fit.conforms).mpr within, fit.ends⟩
  induction listed with
  | last fit =>
      rw [deepest, Nat.max_le] at within
      exact .last (fewer fit within.1)
  | more fit _ ih =>
      rw [deepest, Nat.max_le] at within
      exact .more (fewer fit within.1) (ih within.2)

variable {source : Source} (atMost : narrow ≤ wide)
include atMost

theorem document_filtersDepth :
    FiltersDepth Document.depth narrow (Document.parse source (options.nesting narrow))
      (Document.parse source (options.nesting wide)) := by
  have optioned := @narrowed_optioned options narrow wide atMost
  have maps := optioned.lawful.document_maps atMost (optioned.fragmentHeads rfl)
  refine filtersDepth Document.relocate_id (maps.answers (optioned.ofSource source trivial)) ?_ ?_
  · intro document parsed
    obtain ⟨_, _, _, _, _, listed, _⟩ := Document.parse_ok parsed
    have conform := (listed_conforms listed).2
    exact ((definition_measures _).listed document.definitions conform).mp conform
  · intro document parsed within
    obtain ⟨written, all, _, lexed, kept, listed, _, few⟩ := Document.parse_ok parsed
    have agree : Agree (options.nesting wide) (options.nesting narrow) := ⟨rfl, rfl⟩
    obtain ⟨found, here, _⟩ :=
      document_parsed agree lexed (Nat.le_refl _) (listed_within listed within) kept.symm few
    exact ⟨found, here⟩

theorem value_filtersDepth (isConst : Bool) :
    FiltersDepth Value.depth narrow
      ((whole (value isConst narrow)).run source (options.nesting narrow))
      ((whole (value isConst wide)).run source (options.nesting wide)) := by
  have optioned := @narrowed_optioned options narrow wide atMost
  have maps := optioned.lawful.whole_maps (optioned.lawful.value_maps isConst atMost)
  refine filtersDepth Value.relocate_id (maps.answers (optioned.ofSource source trivial)) ?_ ?_
  · intro value parsed
    obtain ⟨conforms, _⟩ := whole_parse_ok (value_reads isConst narrow) Value.spelled parsed
    exact (value.conforms_iff _ isConst conforms).mp conforms
  · intro value parsed within
    obtain ⟨conforms, all, lexed, kept, few⟩ :=
      whole_parse_ok (value_reads isConst wide) Value.spelled parsed
    have agree : Agree (options.nesting wide) (options.nesting narrow) := ⟨rfl, rfl⟩
    obtain ⟨found, here, _⟩ :=
      value_parsed agree lexed (Nat.le_refl _)
        ((value.conforms_iff _ isConst conforms).mpr within) kept few
    exact ⟨found, here⟩

theorem typeRef_filtersDepth :
    FiltersDepth TypeRef.depth narrow (TypeRef.parse source (options.nesting narrow))
      (TypeRef.parse source (options.nesting wide)) := by
  have optioned := @narrowed_optioned options narrow wide atMost
  have maps := optioned.lawful.whole_maps (optioned.lawful.typeRef_maps atMost)
  refine filtersDepth TypeRef.relocate_id (maps.answers (optioned.ofSource source trivial)) ?_ ?_
  · intro type parsed
    obtain ⟨conforms, _⟩ := whole_parse_ok (typeRef_reads narrow) TypeRef.spelled parsed
    exact (type.conforms_iff _ conforms).mp conforms
  · intro type parsed within
    obtain ⟨conforms, all, lexed, kept, few⟩ :=
      whole_parse_ok (typeRef_reads wide) TypeRef.spelled parsed
    have agree : Agree (options.nesting wide) (options.nesting narrow) := ⟨rfl, rfl⟩
    obtain ⟨found, here, _⟩ :=
      typeRef_parsed agree lexed (Nat.le_refl _) ((type.conforms_iff _ conforms).mpr within) kept
        few
    exact ⟨found, here⟩

end

end Parser

open GraphQL.Parser

/-- A limit of nesting is an exact filter on what any wider limit lets through. -/
theorem parse_filtersDepth (source : Source) (options : Options) {narrow wide : Nat}
    (atMost : narrow ≤ wide) :
    FiltersDepth Document.depth narrow (Document.parse source (options.nesting narrow))
        (Document.parse source (options.nesting wide)) ∧
      FiltersDepth Value.depth narrow (Value.parse source (options.nesting narrow))
        (Value.parse source (options.nesting wide)) ∧
      FiltersDepth Value.depth narrow (Value.parseConst source (options.nesting narrow))
        (Value.parseConst source (options.nesting wide)) ∧
      FiltersDepth TypeRef.depth narrow (TypeRef.parse source (options.nesting narrow))
        (TypeRef.parse source (options.nesting wide)) :=
  ⟨document_filtersDepth atMost, value_filtersDepth atMost false, value_filtersDepth atMost true,
    typeRef_filtersDepth atMost⟩

/-- A number in a list in an argument is at the third level, which a limit of two refuses and
one of three lets through. -/
theorem parse_filtersDepth_argument :
    let source := Source.ofBody "\x7ba(b: [1])\x7d"
    2 ≤ 3 ∧ (Document.parse source (bareOptions.nesting 2)).toOption = none ∧
      (Document.parse source (bareOptions.nesting 3)).toOption.isSome = true ∧
      FiltersDepth Document.depth 2 (Document.parse source (bareOptions.nesting 2))
        (Document.parse source (bareOptions.nesting 3)) := by
  intro source
  refine ⟨by decide, by decide +kernel, by decide +kernel, ?_⟩
  exact (parse_filtersDepth source bareOptions (by decide)).1

end GraphQL

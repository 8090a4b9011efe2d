import GraphQL.Proofs.RoundTrip

/-!
Parsing loses, moves and invents nothing: the lexemes of a source are those of the printed form
of what was parsed from it, except for the few that a document may write or leave out.
-/

namespace GraphQL

open GraphQL.Parser

/-- Two sources that say the same to the productions. -/
def Source.SaysAs (source other : Source) : Prop :=
  ∃ lexemes, source.significant? = some lexemes ∧ other.significant? = some lexemes

theorem significant_of_spells {text : List Char} {lexemes : List Lexeme}
    (spells : Spells text lexemes) (spelled : AllSpelled lexemes) (name : String) :
    Source.significant? ⟨String.ofList text, name⟩ = some (.sof :: (lexemes ++ [.eof])) := by
  have lexed : Lexed (Source.chars ⟨String.ofList text, name⟩) lexemes := by
    rw [Source.chars, String.toList_ofList]
    exact spells.lexed
  rw [significant_of_lexed lexed, filter_spelled spelled]

section
variable {source : Source} {options : Options} {lexemes : List Lexeme} {s' : State}
  (spelled : AllSpelled lexemes)
  (moves : Moves (State.ofSource source options) (.sof :: (lexemes ++ [.eof])) s')
include spelled moves

theorem significant_of_moves :
    source.significant? = some (.sof :: (lexemes ++ [.eof])) ∧ AllProper lexemes := by
  obtain ⟨all, lexed, rfl⟩ := lexed_of_moves spelled moves
  exact ⟨significant_of_lexed lexed, lexed.allProper⟩

theorem saysAs_print {text : List Char} (spells : AllProper lexemes → Spells text lexemes)
    (name : String) : source.SaysAs ⟨String.ofList text, name⟩ := by
  obtain ⟨said, proper⟩ := significant_of_moves spelled moves
  exact ⟨_, said, significant_of_spells (spells proper) spelled name⟩

end

/-- The lexemes of a source and those of the printed form of what it parses to. A document may
lose, in each of its definitions, what may be left out there; values and type references lose
nothing. -/
theorem significant_print (source : Source) (options : Options) (name : String) :
    (∀ document, Document.parse source options = .ok document →
      ∃ written : List (Definition × Bool), written.map Prod.fst = document.definitions ∧
        source.significant? = some (.sof ::
          ((written.flatMap fun part => part.1.lexemes part.2) ++ [.eof])) ∧
        Source.significant? ⟨String.ofList document.print, name⟩ = some (.sof ::
          ((written.flatMap fun part => part.1.lexemes false) ++ [.eof])) ∧
        ∀ part ∈ written, part.1.LeavesOut (part.1.lexemes part.2) (part.1.lexemes false)) ∧
    (∀ value, Value.parse source options = .ok value →
      source.SaysAs ⟨String.ofList value.print, name⟩) ∧
    (∀ value, Value.parseConst source options = .ok value →
      source.SaysAs ⟨String.ofList value.print, name⟩) ∧
    (∀ type, TypeRef.parse source options = .ok type →
      source.SaysAs ⟨String.ofList type.print, name⟩) := by
  refine ⟨?_, ?_, ?_, ?_⟩
  · intro document parsed
    obtain ⟨written, all, same, lexed, kept, _⟩ := Document.parse_ok parsed
    have proper := (Document.conforms_of_parse parsed).2
    have printed := significant_of_spells (Document.spells proper) document.spelled name
    have said := significant_of_lexed lexed
    rw [kept] at said
    rw [Document.lexemes, ← same, List.flatMap_map] at printed
    exact ⟨written, same, said, printed, fun part _ => part.1.leavesOut part.2⟩
  · intro value parsed
    obtain ⟨s', read⟩ := run_ok.mp parsed
    have moves := whole_reads (value_reads false options.maxNestingDepth) rfl read
    exact saysAs_print value.spelled moves value.spells name
  · intro value parsed
    obtain ⟨s', read⟩ := run_ok.mp parsed
    have moves := whole_reads (value_reads true options.maxNestingDepth) rfl read
    exact saysAs_print value.spelled moves value.spells name
  · intro type parsed
    obtain ⟨s', read⟩ := run_ok.mp parsed
    have moves := whole_reads (typeRef_reads options.maxNestingDepth) rfl read
    exact saysAs_print type.spelled moves type.spells name

/-- A query with its keyword, a value with a variable, a constant and a type reference. -/
theorem significant_print_queryAlone :
    (∃ written : List (Definition × Bool), written.map Prod.fst = queryAlone.definitions ∧
      Source.significant? (.ofBody "query \x7b a: B \x7d") = some (.sof ::
        ((written.flatMap fun part => part.1.lexemes part.2) ++ [.eof])) ∧
      Source.significant? ⟨String.ofList queryAlone.print, Source.defaultName⟩ = some (.sof ::
        ((written.flatMap fun part => part.1.lexemes false) ++ [.eof])) ∧
      ∀ part ∈ written, part.1.LeavesOut (part.1.lexemes part.2) (part.1.lexemes false)) ∧
    (Source.ofBody "[$a]").SaysAs ⟨String.ofList
      (Value.list [.var ⟨bareName "a", none⟩] none).print, Source.defaultName⟩ ∧
    (Source.ofBody "[1, 2]").SaysAs ⟨String.ofList
      (Value.list [.int "1" none, .int "2" none] none).print, Source.defaultName⟩ ∧
    (Source.ofBody "[A]").SaysAs ⟨String.ofList
      (TypeRef.nullable (.list (.nullable (.named ⟨bareName "A", none⟩)) none)).print,
      Source.defaultName⟩ := by
  refine ⟨?_, ?_, ?_, ?_⟩
  · exact (significant_print _ bareOptions _).1 _ (ok_of_toOption (by decide +kernel))
  · exact (significant_print _ bareOptions _).2.1 _ (ok_of_toOption (by decide +kernel))
  · exact (significant_print _ bareOptions _).2.2.1 _ (ok_of_toOption (by decide +kernel))
  · exact (significant_print _ bareOptions _).2.2.2 _ (ok_of_toOption (by decide +kernel))

end GraphQL

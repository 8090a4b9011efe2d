import GraphQL.Proofs.Lexical.NumberGrammar
import GraphQL.Proofs.Slices

/-!
Numbers in a source. Where a minus or a digit stands, the lexer reads a number exactly if the
longest one that the grammar has there ends where it may, and gives its text; in every other case
the number is invalid.
-/

namespace GraphQL

open Lexical.NumberGrammar

namespace Lexical

section
variable {c : Char} (begins : c = '-' ∨ c.isDigit = true) (rest : List Char)
include begins

theorem not_isIgnored_of_number : Scan.isIgnored c = false := by
  rcases begins with rfl | digit
  · decide
  · refine Bool.eq_false_iff.mpr fun ignored => ?_
    obtain ⟨stops, _⟩ := not_isNameContinue_of_isIgnored ignored
    rw [isNameContinue_of_isDigit digit] at stops
    cases stops

theorem lexeme_number_iff (size : Nat) (found : Lexeme) :
    lexeme (c :: rest) = .done size found ↔
      ∃ word : String, Munches (c :: rest) word.toList ∧ Denotes word found ∧
        size = word.toList.length := by
  rw [lexeme_number begins, number_iff]

theorem lexeme_no_number (none : ∀ word : String, ¬Munches (c :: rest) word.toList) :
    ∃ fault, (lexeme (c :: rest)).outcome = .error fault ∧ fault.kind = .invalidNumber := by
  have read := lexeme_number begins rest
  cases outcome : (number (c :: rest)).outcome with
  | ok found =>
      obtain ⟨word, munches, _⟩ := number_iff.mp (congrArg (Reading.mk _) outcome)
      exact absurd munches (none word)
  | error fault => exact ⟨fault, by rw [read, outcome], number_refuses _ fault outcome⟩

end

end Lexical

theorem Scan.kept_of_number {scan : Scan}
    (begins : ∃ c ∈ scan.rest.head?, c = '-' ∨ c.isDigit = true) :
    ∀ c ∈ scan.rest.head?, isIgnored c = false := by
  obtain ⟨c, first, begins⟩ := begins
  intro d second
  obtain rfl : c = d := Option.some.inj (first.symm.trans second)
  exact Lexical.not_isIgnored_of_number begins

/-- Wherever a scan stands in front of a minus or a digit: it reads a lexeme from a slice exactly if
the slice is the longest number that the text ahead begins with, nothing stands behind it that may
not follow a number, and the lexeme is the integer or the float of this text, a float if it has a
fraction or an exponent. Without such a slice the number is invalid. -/
theorem Scan.reads_number {source : Source} {behind : List Char} {scan : Scan}
    (stands : scan.StandsBehind source behind)
    (begins : ∃ c ∈ scan.rest.head?, c = '-' ∨ c.isDigit = true) (prev : Nat) :
    (∀ (found : Lexeme) (slice : String), scan.ReadsSlice source prev found slice ↔
      Munches scan.rest slice.toList ∧ Denotes slice found) ∧
    ((∀ slice : String, ¬Munches scan.rest slice.toList) →
      ∃ error next, scan.read source prev = (.error error, next) ∧
        error.kind = .invalidNumber) := by
  have kept := kept_of_number begins
  obtain ⟨c, first, begins⟩ := begins
  obtain ⟨rest, ahead⟩ := List.head?_eq_some_iff.mp first
  refine ⟨fun found slice => ?_, fun none => ?_⟩
  · rw [stands.readsSlice_iff kept, ahead, Lexical.lexeme_number_iff begins]
    constructor
    · rintro ⟨left, whole, word, munches, denotes, length⟩
      obtain ⟨behind, same⟩ := munches.longest.isPrefix
      have equal : slice = word :=
        String.toList_injective (List.append_inj_left (whole.symm.trans same.symm) length)
      rw [equal]
      exact ⟨munches, denotes⟩
    · rintro ⟨munches, denotes⟩
      obtain ⟨left, same⟩ := munches.longest.isPrefix
      exact ⟨left, same.symm, slice, munches, denotes, rfl⟩
  · rw [ahead] at none
    obtain ⟨fault, failed, kind⟩ := Lexical.lexeme_no_number begins rest none
    rw [← ahead] at failed
    obtain ⟨error, next, read, same⟩ := Scan.read_fault kept source prev failed
    exact ⟨error, next, read, same.trans kind⟩

/-- A float in front of a comma, and a point that no digit follows. -/
theorem Scan.reads_number_fraction :
    let source := Source.ofBody "a -0.50E+7,1."
    let scan := (Scan.ofSource source).consume 2
    let last := (Scan.ofSource source).consume 11
    scan.StandsBehind source ['a', ' '] ∧ last.StandsBehind source "a -0.50E+7,".toList ∧
      (∃ c ∈ scan.rest.head?, c = '-' ∨ c.isDigit = true) ∧
      (∃ c ∈ last.rest.head?, c = '-' ∨ c.isDigit = true) ∧
      (∀ slice : String, ¬Munches last.rest slice.toList) ∧
      scan.ReadsSlice source 1 (.float "-0.50E+7") "-0.50E+7" ∧
      ∃ error next, last.read source 2 = (.error error, next) ∧ error.kind = .invalidNumber := by
  intro source scan last
  have stands : scan.StandsBehind source ['a', ' '] := ⟨by decide, by decide⟩
  have standsLast : last.StandsBehind source "a -0.50E+7,".toList := ⟨by decide, by decide⟩
  have begins : ∃ c ∈ scan.rest.head?, c = '-' ∨ c.isDigit = true := ⟨'-', by decide, by decide⟩
  have beginsLast : ∃ c ∈ last.rest.head?, c = '-' ∨ c.isDigit = true :=
    ⟨'1', by decide, by decide⟩
  let parts : Lexical.NumberParts := ⟨['-'], ['0'], ['.', '5', '0'], ['E', '+', '7']⟩
  have valid : parts.Valid := ⟨.inl rfl, by decide, by decide, by decide⟩
  have follows : MayFollow [',', '1', '.'] := by
    rintro c ⟨⟩
    decide
  have denotes : Denotes "-0.50E+7" (.float "-0.50E+7") := denotes_iff.mpr ⟨parts, valid, rfl, rfl⟩
  have ahead : scan.rest = parts.text ++ [',', '1', '.'] := by decide
  have munches : Munches scan.rest "-0.50E+7".toList := by
    rw [ahead]
    exact ⟨longest_of_follows valid follows, follows⟩
  have none : ∀ slice : String, ¬Munches last.rest slice.toList := by
    intro slice munches
    obtain ⟨found, denotes⟩ := exists_denotes munches.longest.member
    have read := number_iff.mpr ⟨slice, munches, denotes, rfl⟩
    have ahead : last.rest = ['1', '.'] := by decide
    have failed : (Lexical.number ['1', '.']).outcome = .error (.missingDigit none) := rfl
    rw [← ahead, read] at failed
    cases failed
  exact ⟨stands, standsLast, begins, beginsLast, none,
    ((Scan.reads_number stands begins 1).1 _ _).mpr ⟨munches, denotes⟩,
    (Scan.reads_number standsLast beginsLast 2).2 none⟩

end GraphQL

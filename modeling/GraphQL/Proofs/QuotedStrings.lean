import GraphQL.Proofs.Lexical.Bytewise
import GraphQL.Proofs.Lexical.Quotes
import GraphQL.Proofs.Slices

/-!
Quoted strings in a source. Where a quote begins no block string, the lexer reads a string exactly
if the grammar derives one from there, and gives its text and its value; in every other case the
string is invalid or not closed.
-/

namespace GraphQL

namespace Lexical

section
variable {text : List Char} (single : ∀ tail, text = '"' :: '"' :: tail → False)
include single

/-- The string lexeme of a text is the one that the grammar derives from it. -/
theorem lexeme_string_iff (size : Nat) (value : String) :
    lexeme ('"' :: text) = .done size (.string value) ↔
      ∃ inner rest, text = inner ++ '"' :: rest ∧ size = inner.length + 2 ∧
        Quotes inner value.toList := by
  rw [lexeme_quoted single]
  constructor
  · intro read
    obtain ⟨found, outcome, same⟩ := Reading.outcome_map (congrArg Reading.outcome read)
    obtain ⟨inner, rest, derived, quotes⟩ := quotes_of_quotedBody outcome
    rw [List.drop_zero] at derived
    rw [derived, quotes.quotedBody_eq rest] at read
    have length : 1 + (inner.length + 1) = size := congrArg Reading.size read
    refine ⟨inner, rest, derived, by omega, ?_⟩
    rwa [← Lexeme.string.inj same, String.toList_ofList]
  · rintro ⟨inner, rest, rfl, rfl, quotes⟩
    rw [quotes.quotedBody_eq, Reading.map_done, Reading.behind_done, String.ofList_toList]
    congr 1
    omega

theorem lexeme_no_string
    (none : ∀ inner rest value, text = inner ++ '"' :: rest → ¬Quotes inner value) :
    ∃ fault, (lexeme ('"' :: text)).outcome = .error fault ∧
      (fault.kind = .invalidString ∨ fault.kind = .unterminatedString) := by
  rw [lexeme_quoted single]
  cases outcome : (quotedBody 0 text).outcome with
  | ok value =>
      obtain ⟨inner, rest, derived, quotes⟩ := quotes_of_quotedBody outcome
      exact absurd quotes (none inner rest value derived)
  | error fault =>
      refine ⟨fault, ?_, kind_of_quotedBody outcome⟩
      simp only [Reading.behind, Reading.map, outcome, Except.map]

end

theorem lexeme_refused {text : List Char} {fault : Fault} (refused : escape text = .error fault) :
    (lexeme ('"' :: '\\' :: text)).outcome = .error fault := by
  rw [lexeme_quoted (by rintro tail ⟨⟩), quotedBody, if_neg (by decide), if_neg (by decide),
    if_pos rfl, refused]
  rfl

end Lexical

/-- Wherever a scan stands in front of a quote that begins no block string: it reads a string of
this slice and value exactly if the slice is a text of the grammar, in quotes, with this value.
Without one, it gives an error of one of two kinds. In either case it stays at a boundary of the
source. Every escape can be read from bytes into words of 32 bits, with no sum or difference that
wraps and no slice that ends inside a character. No shift loses bits, except at the ninth digit of a
braced escape: of its number no character is made, since nine digits are always refused. -/
theorem Scan.reads_quotedString {source : Source} {behind : List Char} {scan : Scan}
    (stands : scan.StandsBehind source behind) (quote : scan.rest.head? = some '"')
    (single : ¬BlockString.delimiter <+: scan.rest) (prev : Nat) :
    (∀ slice value : String, scan.ReadsSlice source prev (.string value) slice ↔
      ∃ inner rest, slice.toList = '"' :: (inner ++ ['"']) ∧ scan.rest = slice.toList ++ rest ∧
        Lexical.Quotes inner value.toList) ∧
    ((∀ inner rest value, scan.rest = '"' :: (inner ++ '"' :: rest) →
        ¬Lexical.Quotes inner value) →
      ∃ error next, scan.read source prev = (.error error, next) ∧
        (error.kind = .invalidString ∨ error.kind = .unterminatedString)) ∧
    (∃ more, (scan.read source prev).2.StandsBehind source (behind ++ more)) ∧
    (∀ text, Lexical.Bytewise.read Lexical.Bytewise.lossy ('\\' :: text) =
      some (Lexical.Bytewise.decoded text)) ∧
    (∀ text, ¬Lexical.Bytewise.Spills text →
      Lexical.Bytewise.read Lexical.Bytewise.lossless ('\\' :: text) =
        some (Lexical.Bytewise.decoded text)) ∧
    ∀ text, Lexical.Bytewise.Spills text →
      Lexical.Bytewise.read Lexical.Bytewise.lossless ('\\' :: text) = none ∧
        ∃ fault, Lexical.escape text = .error fault ∧ fault.kind = .invalidString := by
  obtain ⟨text, ahead⟩ := List.head?_eq_some_iff.mp quote
  have kept : ∀ c ∈ scan.rest.head?, Scan.isIgnored c = false := by
    intro c first
    rw [quote] at first
    cases first
    decide
  have single : ∀ tail, text = '"' :: '"' :: tail → False := by
    rintro tail rfl
    exact single ⟨tail, ahead.symm⟩
  refine ⟨fun slice value => ?_, fun none => ?_, stands.read prev, Lexical.Bytewise.read_lossy,
    fun text kept => Lexical.Bytewise.lossless_keeps.read_eq (.inr kept),
    fun text => Lexical.Bytewise.read_spills⟩
  · rw [stands.readsSlice_iff kept, ahead]
    constructor
    · rintro ⟨rest, whole, reading⟩
      obtain ⟨inner, left, rfl, length, quotes⟩ := (Lexical.lexeme_string_iff single _ _).mp reading
      have closed : slice.toList = '"' :: (inner ++ ['"']) := by
        have both : slice.toList ++ rest = '"' :: (inner ++ ['"']) ++ left := by
          rw [← whole]
          simp
        exact List.append_inj_left both (by simp [length])
      exact ⟨inner, rest, closed, whole, quotes⟩
    · rintro ⟨inner, rest, closed, whole, quotes⟩
      refine ⟨rest, whole, (Lexical.lexeme_string_iff single _ _).mpr ⟨inner, rest, ?_, ?_, quotes⟩⟩
      · rw [closed] at whole
        simpa using whole
      · simp [closed]
  · have nothing : ∀ inner rest value, text = inner ++ '"' :: rest →
        ¬Lexical.Quotes inner value := by
      rintro inner rest value rfl
      exact none inner rest value ahead
    obtain ⟨fault, failed, kinds⟩ := Lexical.lexeme_no_string single nothing
    rw [← ahead] at failed
    obtain ⟨error, next, read, same⟩ := Scan.read_fault kept source prev failed
    exact ⟨error, next, read, by rwa [same]⟩

/-- The ninth digit pushes the only digit that is not zero out of the word. The escape is refused,
but the number has wrapped by then. -/
theorem Scan.quotedString_spills :
    let source := Source.ofBody "\"\\u\x7b100000000"
    let scan := Scan.ofSource source
    scan.StandsBehind source [] ∧ scan.rest.head? = some '"' ∧
      ¬BlockString.delimiter <+: scan.rest ∧
      (∃ error next, scan.read source 0 = (.error error, next) ∧ error.kind = .invalidString) ∧
      Lexical.Bytewise.Spills "u\x7b100000000".toList ∧
      Lexical.Bytewise.read Lexical.Bytewise.lossless "\\u\x7b100000000".toList = none ∧
      Lexical.Bytewise.lossless 0x10000000 4 = none ∧
      Lexical.Bytewise.lossy 0x10000000 4 = some 0 := by
  intro source scan
  have zero : Hex.IsDigit '0' 0 := by decide
  have one : Hex.Numeral ['1'] 1 := Hex.Numeral.nil.snoc (by decide : Hex.IsDigit '1' 1)
  have numeral : Hex.Numeral ['1', '0', '0', '0', '0', '0', '0', '0'] 0x10000000 :=
    ((((((one.snoc zero).snoc zero).snoc zero).snoc zero).snoc zero).snoc zero).snoc zero
  have spills : Lexical.Bytewise.Spills "u\x7b100000000".toList :=
    @Lexical.Bytewise.Spills.ninth ['1', '0', '0', '0', '0', '0', '0', '0'] [] 0x10000000 0 '0'
      rfl numeral (by decide) (by decide) zero
  have ahead : scan.rest = '"' :: '\\' :: "u\x7b100000000".toList := by decide
  have kept : ∀ c ∈ scan.rest.head?, Scan.isIgnored c = false := by
    rw [ahead]
    rintro c ⟨⟩
    decide
  obtain ⟨stuck, fault, refused, kind⟩ := Lexical.Bytewise.read_spills spills
  have failed := Lexical.lexeme_refused refused
  rw [← ahead] at failed
  obtain ⟨error, next, read, same⟩ := Scan.read_fault kept source 0 failed
  exact ⟨⟨by decide, by decide⟩, by decide, by decide, ⟨error, next, read, same.trans kind⟩,
    spills, stuck, by decide, by decide⟩

/-- A surrogate pair and a braced escape behind one more character, one character of the value
each. -/
theorem Scan.reads_quotedString_escaped :
    let source := Source.ofBody "a\"\\uD83D\\uDE00\\u\x7b041\x7d\""
    let scan := (Scan.ofSource source).consume 1
    scan.StandsBehind source ['a'] ∧ scan.rest.head? = some '"' ∧
      ¬BlockString.delimiter <+: scan.rest ∧
      scan.ReadsSlice source 1 (.string "😀A") "\"\\uD83D\\uDE00\\u\x7b041\x7d\"" := by
  intro source scan
  have stands : scan.StandsBehind source ['a'] := ⟨by decide, by decide⟩
  have single : ¬BlockString.delimiter <+: scan.rest := by decide
  have digits : Hex.Numeral ['D', '8', '3', 'D'] 0xD83D := Hex.numeral_of_ofFour rfl
  have more : Hex.Numeral ['D', 'E', '0', '0'] 0xDE00 := Hex.numeral_of_ofFour rfl
  have three : Hex.Numeral ['0', '4', '1'] 0x41 :=
    ((Hex.Numeral.nil.snoc (by decide : Hex.IsDigit '0' 0)).snoc
      (by decide : Hex.IsDigit '4' 4)).snoc (by decide : Hex.IsDigit '1' 1)
  have pair : Lexical.Escapes ['u', 'D', '8', '3', 'D', '\\', 'u', 'D', 'E', '0', '0'] '😀' :=
    .pair rfl rfl digits more (by decide) (by decide) rfl
  have letter : Lexical.Escapes ['u', '{', '0', '4', '1', '}'] 'A' :=
    @Lexical.Escapes.braced ['0', '4', '1'] 'A' (by decide) (by decide) three
  have quote : scan.rest.head? = some '"' := by decide
  refine ⟨stands, quote, single, ?_⟩
  exact ((Scan.reads_quotedString stands quote single 1).1 _ _).mpr
    ⟨_, [], by decide, by decide, .escape pair (.escape letter .nil)⟩

end GraphQL

import GraphQL.Proofs.Arena

/-!
Reading at one place of a source. A read that skips nothing takes the lexeme that the text ahead
begins with, and the slice that its token covers. If that is all of the text, the source is one
token.
-/

namespace GraphQL

/-- One read gives a token of this lexeme, which covers this slice of the source. -/
def Scan.ReadsSlice (source : Source) (prev : Nat) (scan : Scan) (found : Lexeme)
    (slice : String) : Prop :=
  ∃ token next, scan.read source prev = (.ok token, next) ∧ token.lexeme = found ∧
    source.slice? token.start token.stop = some slice

@[simp] theorem Lexical.Fault.error_kind (source : Source) (start here : Cursor)
    (fault : Lexical.Fault) : (fault.error source start here).kind = fault.kind := by
  cases fault <;> rfl

theorem Scan.dropWhile_kept {scan : Scan} (kept : ∀ c ∈ scan.rest.head?, isIgnored c = false) :
    scan.rest.dropWhile isIgnored = scan.rest := by
  cases chars : scan.rest with
  | nil => rfl
  | cons c others =>
      have first := kept c (by rw [chars]; rfl)
      rw [List.dropWhile_cons_of_neg (by rw [first]; decide)]

theorem Scan.read_kept {scan : Scan} (kept : ∀ c ∈ scan.rest.head?, isIgnored c = false)
    (source : Source) (prev : Nat) {size : Nat} {found : Lexeme}
    (reading : Lexical.lexeme scan.rest = .done size found) :
    ∃ token next, scan.read source prev = (.ok token, next) ∧ token.lexeme = found ∧
      next.rest = scan.rest.drop size := by
  have ahead := dropWhile_kept kept
  rw [← ahead] at reading
  obtain ⟨token, next, read, same, rest⟩ := read_done source prev reading
  rw [ahead] at rest
  exact ⟨token, next, read, same, rest⟩

theorem Scan.read_fault {scan : Scan} (kept : ∀ c ∈ scan.rest.head?, isIgnored c = false)
    (source : Source) (prev : Nat) {fault : Lexical.Fault}
    (failed : (Lexical.lexeme scan.rest).outcome = .error fault) :
    ∃ error next, scan.read source prev = (.error error, next) ∧ error.kind = fault.kind := by
  have ahead : scan.skipIgnored.rest = scan.rest := by
    rw [rest_skipIgnored, dropWhile_kept kept]
  rw [← ahead] at failed
  simp only [Scan.read, failed]
  exact ⟨_, _, rfl, Lexical.Fault.error_kind _ _ _ _⟩

namespace Scan.StandsBehind

variable {source : Source} {behind : List Char} {scan : Scan}
  (stands : scan.StandsBehind source behind) (kept : ∀ c ∈ scan.rest.head?, isIgnored c = false)
include stands kept

theorem covers_of_read {prev : Nat} {token : Token} {next : Scan}
    (read : scan.read source prev = (.ok token, next)) :
    ∃ slice, scan.rest = slice ++ next.rest ∧ token.Covers behind slice next.rest := by
  obtain ⟨gap, slice, ignored, moved, covers, _⟩ := stands.read_token read
  have ahead : scan.rest = gap ++ (slice ++ next.rest) := by
    have whole := stands.whole.symm.trans moved.whole
    rw [List.append_assoc, List.append_assoc] at whole
    exact List.append_cancel_left whole
  cases gap with
  | nil =>
      rw [List.append_nil] at covers
      exact ⟨slice, ahead, covers⟩
  | cons c rest =>
      have isIgnored := ignored c List.mem_cons_self
      rw [kept c (by rw [ahead]; rfl)] at isIgnored
      cases isIgnored

theorem slice_of_read {prev : Nat} {token : Token} {next : Scan}
    (read : scan.read source prev = (.ok token, next)) :
    ∃ slice, scan.rest = slice ++ next.rest ∧
      source.slice? token.start token.stop = some (String.ofList slice) ∧
      Lexical.lexeme scan.rest = .done slice.length token.lexeme := by
  obtain ⟨slice, ahead, covers⟩ := stands.covers_of_read kept read
  have whole : source.chars = behind ++ slice ++ next.rest := by
    rw [stands.whole, ahead, List.append_assoc]
  refine ⟨slice, ahead, covers.slice_eq whole, ?_⟩
  rw [ahead]
  exact covers.sliced.cut next.rest (List.prefix_refl _)

theorem readsSlice_iff (prev : Nat) (found : Lexeme) (slice : String) :
    scan.ReadsSlice source prev found slice ↔
      ∃ rest, scan.rest = slice.toList ++ rest ∧
        Lexical.lexeme scan.rest = .done slice.toList.length found := by
  constructor
  · rintro ⟨token, next, read, rfl, sliced⟩
    obtain ⟨taken, whole, same, reading⟩ := stands.slice_of_read kept read
    obtain rfl : String.ofList taken = slice := Option.some.inj (same.symm.trans sliced)
    rw [String.toList_ofList]
    exact ⟨next.rest, whole, reading⟩
  · rintro ⟨rest, whole, reading⟩
    obtain ⟨token, next, read, same, _⟩ := read_kept kept source prev reading
    obtain ⟨taken, wholeToo, sliced, readingToo⟩ := stands.slice_of_read kept read
    have length : taken.length = slice.toList.length :=
      congrArg Lexical.Reading.size (readingToo.symm.trans reading)
    have equal := List.append_inj_left (wholeToo.symm.trans whole) length
    rw [equal, String.ofList_toList] at sliced
    exact ⟨token, next, read, same, sliced⟩

end Scan.StandsBehind

/-- Between the marks around it, a source is one token, which covers all of its text. -/
def Source.IsToken (source : Source) (found : Lexeme) : Prop :=
  ∃ lexer token last, source.lex = (none, lexer) ∧ lexer.tokens.toList = [.sof, token, last] ∧
    token.lexeme = found ∧ token.start = 0 ∧ token.stop = byteLength source.chars ∧
    last.lexeme = .eof

theorem Source.isToken_of_lexeme {source : Source} {found : Lexeme}
    (kept : ∀ c ∈ source.chars.head?, Scan.isIgnored c = false) (more : found ≠ .eof)
    (reading : Lexical.lexeme source.chars = .done source.chars.length found) :
    source.IsToken found := by
  have stands := Scan.StandsBehind.ofSource source
  obtain ⟨token, next, read, rfl, rest⟩ :=
    @Scan.read_kept (.ofSource source) kept source 0 _ _ reading
  have finished : next.rest = [] := rest.trans List.drop_length
  have final : Lexical.lexeme (next.rest.dropWhile Scan.isIgnored) = .done 0 .eof := by
    rw [finished]
    rfl
  obtain ⟨last, _, readLast, ends, _⟩ := Scan.read_done source 1 final
  obtain ⟨lexer, lexed, tokens⟩ :=
    Source.lex_eq (.token read more (.finish readLast ends))
  obtain ⟨slice, whole, covers⟩ := stands.covers_of_read kept read
  have all : slice = source.chars := by
    rw [finished, List.append_nil] at whole
    exact whole.symm
  exact ⟨lexer, token, last, lexed, tokens, rfl, covers.start, by rw [covers.stop, all]; rfl, ends⟩

end GraphQL

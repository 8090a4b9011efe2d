import GraphQL.Proofs.Parser.Located
import GraphQL.Proofs.Slices
import GraphQL.Proofs.ValueRoundTrip

/-!
Literals of strings. A literal is one token that covers all of it, with the value that it was
written for: for quoted strings any value at all, for block strings any that one can have, and at
any indentation. The literal that is written for a value that no block string can have is one token
too, unless the value holds characters that no string may. So is any text between two delimiters, if
it has none of its own, with its dedented text as the value.
-/

namespace GraphQL

open GraphQL.Parser

def Lexeme.Occurs (found : Lexeme) : Prop :=
  ∃ source prev scan token next, Scan.read source prev scan = (.ok token, next) ∧
    token.lexeme = found

/-- The values of block strings are those that dedenting leaves as they are. -/
theorem occurs_blockString_iff {value : String} :
    (Lexeme.blockString value).Occurs ↔ BlockString.isValue value.toList = true := by
  constructor
  · rintro ⟨source, prev, scan, token, next, read, same⟩
    obtain ⟨size, reading, _⟩ := Scan.read_ok read
    rw [same] at reading
    cases ahead : scan.rest.dropWhile Scan.isIgnored with
    | nil =>
        rw [ahead] at reading
        cases reading
    | cons c rest =>
        rw [ahead] at reading
        have outcome := congrArg Lexical.Reading.outcome reading
        obtain ⟨_, proper | comment⟩ := Lexical.lexeme_ok outcome
        · exact proper
        · cases comment
  · intro isValue
    have reading := Lexical.lexeme_literal isValue 0 []
    rw [indentBy_zero, List.append_nil, String.ofList_toList] at reading
    have kept : ∀ c ∈ (BlockString.literal value.toList).head?, Scan.isIgnored c = false := by
      rintro c ⟨⟩
      decide
    obtain ⟨token, next, read, same, _⟩ :=
      @Scan.read_kept ⟨.start, BlockString.literal value.toList⟩ kept (.ofBody "") 0 _ _ reading
    exact ⟨_, _, _, token, next, read, same⟩

theorem Source.chars_ofList (text : List Char) (name : String) :
    Source.chars ⟨String.ofList text, name⟩ = text := String.toList_ofList

theorem isToken_written {found : Lexeme} (proper : found.isProper = true) (width : Nat)
    (name : String) :
    Source.IsToken ⟨String.ofList (indentBy width found.written), name⟩ found := by
  obtain ⟨c, rest, begins, kept⟩ := Lexeme.written_begins proper
  have more : found ≠ .eof := by
    rintro rfl
    cases proper
  apply Source.isToken_of_lexeme _ more
  · rw [Source.chars_ofList]
    have read := Lexeme.lexeme_written proper width Lexical.stops_nil
    rwa [List.append_nil] at read
  · intro d first
    rw [Source.chars_ofList, head_indentBy, begins] at first
    obtain rfl : c = d := by simpa using first
    exact kept

/-- Between delimiters, an escaped text that closes is one token, whose value is the dedented text. -/
theorem isToken_escape {text : List Char} (allowed : ∀ c ∈ text, Lexical.isForbidden c = false)
    (closes : BlockString.Closes text) (name : String) :
    Source.IsToken
      ⟨String.ofList (BlockString.delimiter ++ (BlockString.escape text ++ BlockString.delimiter)),
        name⟩
      (.blockString (String.ofList (BlockString.dedent text))) := by
  have body := Lexical.blockBody_escape allowed closes []
  rw [List.append_nil] at body
  have read : Lexical.lexeme
        (BlockString.delimiter ++ (BlockString.escape text ++ BlockString.delimiter)) =
      .done (BlockString.delimiter ++ (BlockString.escape text ++ BlockString.delimiter)).length
        (.blockString (String.ofList (BlockString.dedent text))) := by
    rw [Lexical.lexeme_delimiter, body, Lexical.Reading.map_done, Lexical.Reading.behind_done]
    congr 1
    simp only [List.length_append, BlockString.delimiter, List.length_cons, List.length_nil]
  refine Source.isToken_of_lexeme ?_ (by rintro ⟨⟩) (by rw [Source.chars_ofList, read])
  rw [Source.chars_ofList]
  rintro c ⟨⟩
  decide

/-- Where every character may stand in a string, a literal is one token. -/
theorem isToken_literal {text : List Char} (allowed : ∀ c ∈ text, Lexical.isForbidden c = false)
    (name : String) :
    ∃ value,
      Source.IsToken ⟨String.ofList (BlockString.literal text), name⟩ (.blockString value) := by
  obtain ⟨framed, closes, origin, written⟩ := BlockString.literal_closes text
  have plain : ∀ c ∈ framed, Lexical.isForbidden c = false := by
    intro c member
    rcases origin c member with inside | rfl
    · exact allowed c inside
    · decide
  rw [written]
  exact ⟨_, isToken_escape plain closes name⟩

theorem not_isForbidden {c : Char} (allowed : 0x20 ≤ c.toNat ∨ c = '\t' ∨ c = '\n' ∨ c = '\r') :
    Lexical.isForbidden c = false := by
  rcases allowed with large | rfl | rfl | rfl
  · simp [Lexical.isForbidden, Nat.not_lt.mpr large]
  all_goals decide

/-- The text of a block string between its lines. A value that some block string has comes back
from its literal, however far that is indented. Any text without forbidden control characters has a
literal that is one block string and nothing else, whatever that reads as. -/
theorem BlockString.isToken_of_literal :
    (∀ value : String, (Lexeme.blockString value).Occurs → ∀ (width : Nat) (name : String),
      Source.IsToken
        ⟨String.ofList (indentBy width (BlockString.literal value.toList)), name⟩
        (.blockString value)) ∧
    ∀ text : String, (∀ c ∈ text.toList, 0x20 ≤ c.toNat ∨ c = '\t' ∨ c = '\n' ∨ c = '\r') →
      ∀ name : String, ∃ value : String,
        Source.IsToken ⟨String.ofList (BlockString.literal text.toList), name⟩
          (.blockString value) := by
  constructor
  · intro value occurs width name
    exact @isToken_written (.blockString value) (occurs_blockString_iff.mp occurs) width name
  · intro text allowed name
    exact isToken_literal (fun c member => not_isForbidden (allowed c member)) name

/-- Two lines at different margins that end in quotes, and a text that ends in a backslash behind a
carriage return. -/
theorem BlockString.isToken_of_literal_quotes :
    (Lexeme.blockString "a\n  b\"\"\"\"").Occurs ∧
      Source.IsToken
        ⟨String.ofList (indentBy 3 (BlockString.literal "a\n  b\"\"\"\"".toList)), "b"⟩
        (.blockString "a\n  b\"\"\"\"") ∧
      (∀ c ∈ " \"\"\"\"\r\\".toList, 0x20 ≤ c.toNat ∨ c = '\t' ∨ c = '\n' ∨ c = '\r') ∧
      ∃ value, Source.IsToken ⟨String.ofList (BlockString.literal " \"\"\"\"\r\\".toList), "b"⟩
        (.blockString value) := by
  have occurs : (Lexeme.blockString "a\n  b\"\"\"\"").Occurs :=
    occurs_blockString_iff.mpr (by decide +kernel)
  have allowed : ∀ c ∈ " \"\"\"\"\r\\".toList,
      0x20 ≤ c.toNat ∨ c = '\t' ∨ c = '\n' ∨ c = '\r' := by simp
  exact ⟨occurs, BlockString.isToken_of_literal.1 _ occurs 3 "b", allowed,
    BlockString.isToken_of_literal.2 _ allowed "b"⟩

/-- Text without a delimiter, between two of them, is one block string whose value is the dedented
text. Reading it splits it into the lines that it has, however these end. -/
theorem BlockString.isToken_dedent (text : String) (plain : ¬delimiter <:+: text.toList)
    (closes : text.toList.getLast? ≠ some '"' ∧ text.toList.getLast? ≠ some '\\')
    (allowed : ∀ c ∈ text.toList, 0x20 ≤ c.toNat ∨ c = '\t' ∨ c = '\n' ∨ c = '\r')
    (name : String) :
    Source.IsToken ⟨"\"\"\"" ++ text ++ "\"\"\"", name⟩
      (.blockString (String.ofList (dedent text.toList))) := by
  have ends : Closes text.toList := by
    rintro c last
    exact ⟨fun same => closes.1 (same ▸ last), fun same => closes.2 (same ▸ last)⟩
  have literal : "\"\"\"" ++ text ++ "\"\"\"" =
      String.ofList (delimiter ++ (escape text.toList ++ delimiter)) := by
    apply String.toList_injective
    rw [escape_of_no_delimiter plain, String.toList_ofList, String.toList_append,
      String.toList_append, List.append_assoc]
    rfl
  rw [literal]
  exact isToken_escape (fun c member => not_isForbidden (allowed c member)) ends name

/-- Lines that end in each of the three ways, with two quotes among them. -/
theorem BlockString.isToken_dedent_mixed :
    Source.IsToken ⟨"\"\"\"" ++ "\r\n  a\"\"\r\r \t\n  \\b\n" ++ "\"\"\"", "b"⟩
      (.blockString "a\"\"\n\n\n\\b") := by
  have value : dedent "\r\n  a\"\"\r\r \t\n  \\b\n".toList = "a\"\"\n\n\n\\b".toList := by
    decide +kernel
  have plain : ¬delimiter <:+: "\r\n  a\"\"\r\r \t\n  \\b\n".toList := by decide +kernel
  have token := BlockString.isToken_dedent _ plain (by decide) (by simp) "b"
  rwa [value, String.ofList_toList] at token

/-- A quoted string comes back from its literal, whatever it holds. It is one token, and the only
thing that can keep it from being parsed is that no value or no token may be read at all. -/
theorem StringLiteral.parse_write (value name : String) :
    Source.IsToken ⟨String.ofList (StringLiteral.write value.toList), name⟩ (.string value) ∧
    ∀ options : Options,
      (∃ loc, Value.parse ⟨String.ofList (StringLiteral.write value.toList), name⟩ options =
        .ok (.string ⟨value, false, loc⟩)) ↔
      1 ≤ options.maxNestingDepth ∧ ∀ limit, options.maxTokens = some limit → 1 ≤ limit := by
  have proper : (Lexeme.string value).isProper = true := rfl
  refine ⟨?_, fun options => ⟨?_, ?_⟩⟩
  · have single := isToken_written proper 0 name
    rwa [indentBy_zero] at single
  · rintro ⟨loc, parsed⟩
    obtain ⟨conforms, _, _, _, few⟩ := whole_parse_ok (value_reads false _) Value.spelled parsed
    have deep : 1 ≤ options.maxNestingDepth := (Value.conforms_iff _ _ _ conforms).mp conforms
    exact ⟨deep, few⟩
  · rintro ⟨deep, few⟩
    have spells : Spells (StringLiteral.write value.toList) [.string value] := .written proper
    have conforms : (Value.string ⟨value, false, none⟩).conforms options.bare false
        options.maxNestingDepth = true :=
      (@Value.conforms_iff options.bare false 1 _ (.string ⟨value, false, none⟩) rfl).mpr deep
    have bare : options.bare.noLocation = true := rfl
    have here := run_of_spells (fun _ _ => True) (value_finds bare false _) conforms trivial spells
      (Value.spelled _) few name
    obtain ⟨found, parsed, same⟩ := found_of_bared
      (bared_optioned.lawful.whole_maps (bared_optioned.lawful.value_maps false rfl)) here
    cases found with
    | string literal =>
        obtain ⟨text, block, loc⟩ := literal
        obtain ⟨rfl, rfl, _⟩ := StringValue.mk.inj (Value.string.inj same)
        exact ⟨loc, parsed⟩
    | _ => cases same

end GraphQL

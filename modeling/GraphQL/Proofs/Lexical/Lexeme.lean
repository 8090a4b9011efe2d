import GraphQL.Lexical.Scan
import GraphQL.Proofs.Lexical.Block
import GraphQL.Proofs.Lexical.Number
import GraphQL.Proofs.Lexical.Quotes

/-!
Every lexeme has one text that printing writes for it. In front of a text that keeps it
apart it is read back from there, and all that is ever read can be written.
-/

namespace GraphQL

namespace Lexeme

def written : Lexeme → List Char
  | sof | eof => []
  | punctuator mark => mark.text.toList
  | name text | int text | float text => text.toList
  | string value => StringLiteral.write value.toList
  | blockString value => BlockString.literal value.toList
  | comment text => '#' :: text.toList

end Lexeme

namespace Lexical

def isStop (c : Char) : Bool := Scan.isIgnored c || (Punctuator.ofChar? c).isSome

/-- Texts that keep what stands in front of them apart. -/
def Stops (text : List Char) : Prop := Halts (fun c => !isStop c) text

theorem stops_nil : Stops [] := halts_nil

theorem stops_cons {c : Char} (stop : isStop c = true) (rest : List Char) : Stops (c :: rest) :=
  halts_cons (by simp [stop])

theorem stops_append {left right : List Char} (first : Stops left) (second : Stops right) :
    Stops (left ++ right) := halts_append first second

theorem Stops.indentBy {text : List Char} (stops : Stops text) (width : Nat) :
    Stops (indentBy width text) := by
  intro c member
  rw [head_indentBy] at member
  exact stops c member

theorem ofChar_some {c : Char} {mark : Punctuator} (isMark : Punctuator.ofChar? c = some mark) :
    mark.text.toList = [c] ∧ isNameContinue c = false ∧ c ≠ '-' ∧ c ≠ '.' ∧ c ≠ '"' ∧
      Scan.isIgnored c = false := by
  unfold Punctuator.ofChar? at isMark
  split at isMark <;> cases isMark <;> decide

theorem isNameContinue_of_isNameStart {c : Char} (starts : isNameStart c = true) :
    isNameContinue c = true := by
  simp only [isNameStart, Bool.or_eq_true] at starts
  simp only [isNameContinue, Char.isAlphanum, Bool.or_eq_true]
  exact starts.imp_left .inl

theorem isNameContinue_of_isDigit {c : Char} (digit : c.isDigit = true) :
    isNameContinue c = true := by
  simp [isNameContinue, Char.isAlphanum, digit]

theorem not_isNameContinue_of_isIgnored {c : Char} (ignored : Scan.isIgnored c = true) :
    isNameContinue c = false ∧ c ≠ '.' ∧ c ≠ '"' ∧ c ≠ '-' := by
  simp only [Scan.isIgnored, isLineBreak, Bool.or_eq_true, beq_iff_eq] at ignored
  rcases ignored with ((((rfl | rfl) | rfl) | (rfl | rfl)) | rfl) <;> decide

theorem isStop_apart {c : Char} (stop : isStop c = true) :
    isNameContinue c = false ∧ c ≠ '.' ∧ c ≠ '"' := by
  simp only [isStop, Bool.or_eq_true] at stop
  rcases stop with ignored | isMark
  · obtain ⟨noName, noPoint, noQuote, _⟩ := not_isNameContinue_of_isIgnored ignored
    exact ⟨noName, noPoint, noQuote⟩
  · obtain ⟨mark, isMark⟩ := Option.isSome_iff_exists.mp isMark
    obtain ⟨_, noName, _, noPoint, noQuote, _⟩ := ofChar_some isMark
    exact ⟨noName, noPoint, noQuote⟩

section
variable {text : List Char} (stops : Stops text)
include stops

theorem Stops.apart : ∀ c ∈ text.head?, isNameContinue c = false ∧ c ≠ '.' ∧ c ≠ '"' := by
  intro c member
  exact isStop_apart (by simpa using stops c member)

theorem Stops.halts_name : Halts isNameContinue text := fun c member => (stops.apart c member).1

theorem Stops.halts_digit : Halts Char.isDigit text := by
  intro c member
  refine Bool.eq_false_iff.mpr fun digit => ?_
  exact Bool.eq_false_iff.mp (stops.apart c member).1 (isNameContinue_of_isDigit digit)

theorem Stops.continuesNumber : continuesNumber text = false := by
  unfold Lexical.continuesNumber
  cases first : text.head? with
  | none => rfl
  | some c =>
      obtain ⟨noName, noPoint, _⟩ := stops.apart c first
      have noStart : isNameStart c = false := by
        refine Bool.eq_false_iff.mpr fun starts => ?_
        exact Bool.eq_false_iff.mp noName (isNameContinue_of_isNameStart starts)
      simp [noPoint, noStart]

end

/-! Texts by what they begin with. -/

theorem ofChar_none {c : Char} (continues : isNameContinue c = true ∨ c = '-') :
    Punctuator.ofChar? c = none := by
  cases isMark : Punctuator.ofChar? c with
  | none => rfl
  | some mark =>
      obtain ⟨_, noName, noMinus, _⟩ := ofChar_some isMark
      rcases continues with inName | minus
      · rw [noName] at inName
        cases inName
      · exact absurd minus noMinus

theorem lexeme_name {text : List Char} (isName : isName text = true) {rest : List Char}
    (halts : Halts isNameContinue rest) :
    lexeme (text ++ rest) = .done text.length (.name (String.ofList text)) := by
  cases text with
  | nil => cases isName
  | cons c others =>
      simp only [Lexical.isName, Bool.and_eq_true, List.all_eq_true] at isName
      have starts := isNameContinue_of_isNameStart isName.1
      have noMark : c ≠ '#' ∧ c ≠ '.' ∧ c ≠ '"' := by
        refine ⟨?_, ?_, ?_⟩ <;> rintro rfl <;> exact absurd starts (by decide)
      have all : ∀ d ∈ c :: others, isNameContinue d = true := by
        intro d member
        rcases List.mem_cons.mp member with rfl | later
        · exact starts
        · exact isName.2 d later
      simp only [List.cons_append, lexeme, ofChar_none (.inl starts), noMark, if_false, isName.1,
        if_true, name]
      rw [← List.cons_append, takeWhile_halts all halts]

theorem not_isNameStart {c : Char} (isNumber : c = '-' ∨ c.isDigit = true) :
    isNameStart c = false := by
  rcases isNumber with rfl | digit
  · decide
  simp only [Char.isDigit, Bool.and_eq_true, decide_eq_true_eq, ge_iff_le,
    UInt32.le_iff_toNat_le] at digit
  have zero : '0'.val.toNat = 48 := rfl
  have nine : '9'.val.toNat = 57 := rfl
  have capital : 'A'.val.toNat = 65 := rfl
  have small : 'a'.val.toNat = 97 := rfl
  have noUnderscore : c ≠ '_' := by
    rintro rfl
    exact absurd digit (by decide)
  have letters : c.isAlpha = (c.isUpper || c.isLower) := rfl
  have upper : c.isUpper = decide (c.val ≥ 'A'.val ∧ c.val ≤ 'Z'.val) := rfl
  have lower : c.isLower = (decide (c.val ≥ 'a'.val) && decide (c.val ≤ 'z'.val)) := rfl
  simp only [isNameStart, letters, upper, lower, Bool.or_eq_false_iff, beq_eq_false_iff_ne,
    decide_eq_false_iff_not, ge_iff_le, UInt32.le_iff_toNat_le, Bool.and_eq_false_iff]
  refine ⟨⟨?_, ?_⟩, noUnderscore⟩ <;> omega

theorem lexeme_number {c : Char} (isNumber : c = '-' ∨ c.isDigit = true) (rest : List Char) :
    lexeme (c :: rest) = number (c :: rest) := by
  have continues : isNameContinue c = true ∨ c = '-' :=
    isNumber.symm.imp_left isNameContinue_of_isDigit
  have noMark : c ≠ '#' ∧ c ≠ '.' ∧ c ≠ '"' := by
    refine ⟨?_, ?_, ?_⟩ <;> rintro rfl <;> exact absurd isNumber (by decide)
  have begins : (c = '-' || c.isDigit) = true := by simpa using isNumber
  simp only [lexeme, ofChar_none continues, noMark, if_false, not_isNameStart isNumber,
    Bool.false_eq_true, begins, if_true]

theorem NumberParts.Valid.begins {parts : NumberParts} (valid : parts.Valid) :
    ∃ c rest, parts.text = c :: rest ∧ (c = '-' ∨ c.isDigit = true) := by
  obtain ⟨c, rest, whole, digit⟩ := digit_of_isDigits (isDigits_of_isWhole valid.whole)
  rcases valid.sign with sign | sign
  · exact ⟨'-', _, by rw [NumberParts.text, sign]; rfl, .inl rfl⟩
  · exact ⟨c, _, by rw [NumberParts.text, sign, whole]; rfl, .inr digit⟩

theorem lexeme_parts {parts : NumberParts} (valid : parts.Valid) {rest : List Char}
    (halts : Halts Char.isDigit rest) (ends : continuesNumber rest = false) :
    lexeme (parts.text ++ rest) = .done parts.text.length parts.lexeme := by
  obtain ⟨c, others, begins, isNumber⟩ := valid.begins
  rw [← number_eq_done valid halts ends, begins, List.cons_append, lexeme_number isNumber]

theorem head_writeChar (c : Char) : (StringLiteral.writeChar c).head? ≠ some '"' := by
  unfold StringLiteral.writeChar
  split
  · simp
  · rename_i noQuote
    repeat' split
    all_goals simp [noQuote]

theorem writeChar_ne_nil (c : Char) : StringLiteral.writeChar c ≠ [] := by
  unfold StringLiteral.writeChar
  repeat' split
  all_goals simp

theorem lexeme_write (value : List Char) {rest : List Char} (stops : Stops rest) :
    lexeme (StringLiteral.write value ++ rest) =
      .done (StringLiteral.write value).length (.string (String.ofList value)) := by
  have body := (quotes_write value).quotedBody_eq rest
  have single : ∀ behind,
      value.flatMap StringLiteral.writeChar ++ '"' :: rest = '"' :: '"' :: behind → False := by
    intro behind same
    cases value with
    | nil =>
        obtain rfl : rest = '"' :: behind := by simpa using same
        exact (stops.apart '"' rfl).2.2 rfl
    | cons c others =>
        have head := head_writeChar c
        have nonempty := writeChar_ne_nil c
        cases written : StringLiteral.writeChar c with
        | nil => exact nonempty written
        | cons d more =>
            rw [List.flatMap_cons, written, List.append_assoc, List.cons_append] at same
            rw [written, (List.cons.inj same).1] at head
            exact head rfl
  have isQuoted : lexeme (StringLiteral.write value ++ rest) =
      quoted (value.flatMap StringLiteral.writeChar ++ '"' :: rest) := by
    simp only [StringLiteral.write, List.cons_append, List.append_assoc, List.nil_append]
    rfl
  rw [isQuoted]
  simp only [quoted, body, Reading.map_done, Reading.behind_done]
  congr 1
  simp only [StringLiteral.write, List.length_cons, List.length_append, List.length_nil]
  omega

/-! Only block strings are written on several lines. -/

def isNumeric (c : Char) : Bool := c.isDigit || c == '-' || c == '+' || c == '.' || isExponentMark c

theorem isNumeric_of_isDigit {c : Char} (digit : c.isDigit = true) : isNumeric c = true := by
  simp [isNumeric, digit]

theorem numeric_fraction {text : List Char} (fraction : isFraction text = true) :
    ∀ c ∈ text, isNumeric c = true := by
  unfold isFraction at fraction
  split at fraction
  · exact List.forall_mem_nil _
  · exact List.forall_mem_cons.mpr
      ⟨rfl, fun c member => isNumeric_of_isDigit (all_of_isDigits fraction c member)⟩
  · cases fraction

theorem numeric_exponent {text : List Char} (exponent : isExponent text = true) :
    ∀ c ∈ text, isNumeric c = true := by
  unfold isExponent at exponent
  split at exponent
  · exact List.forall_mem_nil _
  · rename_i mark rest
    simp only [Bool.and_eq_true] at exponent
    have unsigned : ∀ c ∈ dropExponentSign rest, isNumeric c = true :=
      fun c member => isNumeric_of_isDigit (all_of_isDigits exponent.2 c member)
    refine List.forall_mem_cons.mpr ⟨by simp [isNumeric, exponent.1], ?_⟩
    unfold dropExponentSign at unsigned
    split at unsigned
    · exact List.forall_mem_cons.mpr ⟨rfl, unsigned⟩
    · exact List.forall_mem_cons.mpr ⟨rfl, unsigned⟩
    · exact unsigned

theorem numeric_parts {parts : NumberParts} (valid : parts.Valid) :
    ∀ c ∈ parts.text, isNumeric c = true := by
  have sign : ∀ c ∈ parts.sign, isNumeric c = true := by
    rcases valid.sign with sign | sign <;> simp [sign, isNumeric]
  have whole : ∀ c ∈ parts.whole, isNumeric c = true := fun c member =>
    isNumeric_of_isDigit (all_of_isDigits (isDigits_of_isWhole valid.whole) c member)
  simp only [NumberParts.text, List.forall_mem_append]
  exact ⟨sign, whole, numeric_fraction valid.fraction, numeric_exponent valid.exponent⟩

theorem numeric_proper {text : String} (proper : (Lexeme.int text).isProper = true ∨
    (Lexeme.float text).isProper = true) : ∀ c ∈ text.toList, isNumeric c = true := by
  rcases proper with isInt | isFloat
  · obtain ⟨parts, valid, same, _⟩ := exists_parts_of_isInt isInt
    rw [← same]
    exact numeric_parts valid
  · obtain ⟨parts, valid, same, _⟩ := exists_parts_of_isFloat isFloat
    rw [← same]
    exact numeric_parts valid

theorem isNameContinue_of_isName {text : List Char} (isName : isName text = true) :
    ∀ c ∈ text, isNameContinue c = true := by
  cases text with
  | nil => cases isName
  | cons c rest =>
      simp only [Lexical.isName, Bool.and_eq_true, List.all_eq_true] at isName
      exact List.forall_mem_cons.mpr ⟨isNameContinue_of_isNameStart isName.1, isName.2⟩

theorem sameLine_writeChar (c : Char) : '\n' ∉ StringLiteral.writeChar c := by
  have digits : ∀ value : Fin 16, '\n' ≠ Hex.digit value := by decide
  have small : ∀ n : Nat, '\n' ≠ Hex.digit (n % 16) := fun n => digits ⟨n % 16, by omega⟩
  unfold StringLiteral.writeChar
  repeat' split
  all_goals simp [Hex.four, small]
  rename_i newline _ _ _
  exact Ne.symm newline

end Lexical

namespace Lexeme

theorem sameLine_written {lexeme : Lexeme} (proper : lexeme.isProper = true)
    (noBlock : ∀ value, lexeme ≠ .blockString value) : '\n' ∉ lexeme.written := by
  cases lexeme with
  | punctuator mark => cases mark <;> decide
  | name text =>
      intro member
      exact absurd (Lexical.isNameContinue_of_isName proper _ member) (by decide)
  | int text =>
      intro member
      exact absurd (Lexical.numeric_proper (.inl proper) _ member) (by decide)
  | float text =>
      intro member
      exact absurd (Lexical.numeric_proper (.inr proper) _ member) (by decide)
  | string value =>
      have chars : ∀ c ∈ value.toList, '\n' ∉ StringLiteral.writeChar c :=
        fun c _ => Lexical.sameLine_writeChar c
      simpa [written, StringLiteral.write] using chars
  | blockString value => exact absurd rfl (noBlock value)
  | sof | eof | comment => cases proper

/-- What is written is read, at any indentation and in front of any text that keeps it apart. -/
theorem lexeme_written {lexeme : Lexeme} (proper : lexeme.isProper = true) (width : Nat)
    {rest : List Char} (stops : Lexical.Stops rest) :
    Lexical.lexeme (indentBy width lexeme.written ++ rest) =
      .done (indentBy width lexeme.written).length lexeme := by
  by_cases block : ∃ value, lexeme = .blockString value
  · obtain ⟨value, rfl⟩ := block
    have read := Lexical.lexeme_literal proper width rest
    rwa [String.ofList_toList] at read
  have noBlock : ∀ value, lexeme ≠ .blockString value := fun value same => block ⟨value, same⟩
  rw [indentBy_line (sameLine_written proper noBlock)]
  cases lexeme with
  | punctuator mark => cases mark <;> rfl
  | name text =>
      have read := Lexical.lexeme_name proper stops.halts_name
      rwa [String.ofList_toList] at read
  | int text =>
      obtain ⟨parts, valid, same, isInt⟩ := Lexical.exists_parts_of_isInt proper
      rw [written, ← same, ← isInt]
      exact Lexical.lexeme_parts valid stops.halts_digit stops.continuesNumber
  | float text =>
      obtain ⟨parts, valid, same, isFloat⟩ := Lexical.exists_parts_of_isFloat proper
      rw [written, ← same, ← isFloat]
      exact Lexical.lexeme_parts valid stops.halts_digit stops.continuesNumber
  | string value =>
      have read := Lexical.lexeme_write value.toList stops
      rwa [String.ofList_toList] at read
  | blockString value => exact absurd rfl (noBlock value)
  | sof | eof | comment => cases proper

theorem written_begins {lexeme : Lexeme} (proper : lexeme.isProper = true) :
    ∃ c rest, lexeme.written = c :: rest ∧ Scan.isIgnored c = false := by
  have number : ∀ {parts : Lexical.NumberParts}, parts.Valid →
      ∃ c rest, parts.text = c :: rest ∧ Scan.isIgnored c = false := by
    intro parts valid
    obtain ⟨c, rest, same, isNumber⟩ := valid.begins
    refine ⟨c, rest, same, Bool.eq_false_iff.mpr fun ignored => ?_⟩
    obtain ⟨noName, _, _, noMinus⟩ := Lexical.not_isNameContinue_of_isIgnored ignored
    rcases isNumber with minus | digit
    · exact noMinus minus
    · rw [Lexical.isNameContinue_of_isDigit digit] at noName
      cases noName
  cases lexeme with
  | punctuator mark => cases mark <;> exact ⟨_, _, rfl, by decide⟩
  | name text =>
      cases same : text.toList with
      | nil => simp [isProper, same, Lexical.isName] at proper
      | cons c rest =>
          refine ⟨c, rest, same, Bool.eq_false_iff.mpr fun ignored => ?_⟩
          obtain ⟨noName, _⟩ := Lexical.not_isNameContinue_of_isIgnored ignored
          simp only [isProper, same, Lexical.isName, Bool.and_eq_true] at proper
          rw [Lexical.isNameContinue_of_isNameStart proper.1] at noName
          cases noName
  | int text =>
      obtain ⟨parts, valid, same, _⟩ := Lexical.exists_parts_of_isInt proper
      rw [written, ← same]
      exact number valid
  | float text =>
      obtain ⟨parts, valid, same, _⟩ := Lexical.exists_parts_of_isFloat proper
      rw [written, ← same]
      exact number valid
  | string value => exact ⟨'"', _, rfl, by decide⟩
  | blockString value => exact ⟨'"', _, rfl, by decide⟩
  | sof | eof | comment => cases proper

end Lexeme

namespace Lexical

/-- A lexeme that was read takes a character at least and can be written, or is a comment. -/
def IsRead (reading : Reading Lexeme) (found : Lexeme) : Prop :=
  0 < reading.size ∧ (found.isProper = true ∨ found.isComment = true)

theorem spread_ok {rest : List Char} {found : Lexeme} (read : (spread rest).outcome = .ok found) :
    IsRead (spread rest) found := by
  revert read
  unfold spread
  split
  · rintro ⟨⟩
    exact ⟨Nat.succ_pos _, .inl rfl⟩
  · rintro ⟨⟩
  · rintro ⟨⟩

theorem quoted_ok {rest : List Char} {found : Lexeme} (read : (quoted rest).outcome = .ok found) :
    IsRead (quoted rest) found := by
  revert read
  unfold quoted
  split
  · rename_i text
    intro read
    obtain ⟨lines, body, rfl⟩ := Reading.outcome_map read
    have isValue := isValue_blockBody body
    refine ⟨by simp only [Reading.behind]; omega, .inl ?_⟩
    simpa [Lexeme.isProper] using isValue
  · intro read
    obtain ⟨value, _, rfl⟩ := Reading.outcome_map read
    exact ⟨by simp only [Reading.behind]; omega, .inl rfl⟩

theorem name_ok {c : Char} (starts : isNameStart c = true) {rest : List Char} {found : Lexeme}
    (read : (name (c :: rest)).outcome = .ok found) : IsRead (name (c :: rest)) found := by
  have taken : (c :: rest).takeWhile isNameContinue = c :: rest.takeWhile isNameContinue :=
    List.takeWhile_cons_of_pos (isNameContinue_of_isNameStart starts)
  obtain rfl : Lexeme.name (String.ofList ((c :: rest).takeWhile isNameContinue)) = found :=
    Except.ok.inj read
  refine ⟨?_, .inl ?_⟩
  · simp only [name, Reading.done, taken, List.length_cons]
    omega
  · simp only [Lexeme.isProper, String.toList_ofList, taken, isName, starts, Bool.true_and]
    exact List.all_takeWhile

theorem number_isRead {text : List Char} {found : Lexeme}
    (read : (number text).outcome = .ok found) : IsRead (number text) found := by
  obtain ⟨parts, valid, rfl, size, _⟩ :=
    number_ok (show number text = ⟨(number text).size, .ok found⟩ by rw [← read])
  obtain ⟨c, rest, same, _⟩ := valid.begins
  refine ⟨?_, .inl valid.isProper⟩
  rw [size, same, List.length_cons]
  omega

theorem lexeme_ok {c : Char} {rest : List Char} {found : Lexeme}
    (read : (lexeme (c :: rest)).outcome = .ok found) : IsRead (lexeme (c :: rest)) found := by
  revert read
  cases isMark : Punctuator.ofChar? c with
  | some mark =>
      simp only [lexeme, isMark]
      rintro ⟨⟩
      exact ⟨Nat.succ_pos _, .inl rfl⟩
  -- By the first character, in the order in which the lexer asks.
  | none =>
      simp only [lexeme, isMark]
      split
      · rintro ⟨⟩
        exact ⟨by simp only [Reading.behind]; omega, .inr rfl⟩
      split
      · exact spread_ok
      split
      · exact quoted_ok
      split
      · rename_i starts
        exact name_ok starts
      split
      · exact number_isRead
      split <;> rintro ⟨⟩

end Lexical

end GraphQL

import GraphQL.Proofs.Lexical.Number
import Mathlib.Computability.Language

/-!
The grammar of numbers as a regular language, apart from any reader. Its words are the texts of
valid parts, and the reader takes the longest of them that a text begins with, or fails as an
invalid number.
-/

namespace GraphQL.Lexical

open scoped Computability

namespace NumberGrammar

def one (p : Char → Bool) : Language Char := {text | ∃ c, text = [c] ∧ p c = true}

def optional (part : Language Char) : Language Char := 1 + part

def digits : Language Char := one Char.isDigit * (one Char.isDigit)∗

def whole : Language Char :=
  one (· == '0') + one (fun c => c.isDigit && c != '0') * (one Char.isDigit)∗

def integer : Language Char := optional (one (· == '-')) * whole

def fraction : Language Char := one (· == '.') * digits

def exponent : Language Char :=
  one isExponentMark * (optional (one fun c => c == '+' || c == '-') * digits)

def float : Language Char := integer * (fraction * optional exponent + exponent)

def number : Language Char := integer * (optional fraction * optional exponent)

/-! The parts of a number against the characters that they have. -/

theorem mem_optional {part : Language Char} {text : List Char} :
    text ∈ optional part ↔ text = [] ∨ text ∈ part := by
  rw [optional, Language.mem_add, Language.mem_one]

theorem mem_one_mul {p : Char → Bool} {part : Language Char} {text : List Char} :
    text ∈ one p * part ↔ ∃ c rest, text = c :: rest ∧ p c = true ∧ rest ∈ part := by
  rw [Language.mem_mul]
  constructor
  · rintro ⟨_, ⟨c, rfl, fits⟩, rest, member, rfl⟩
    exact ⟨c, rest, rfl, fits, member⟩
  · rintro ⟨c, rest, rfl, fits, member⟩
    exact ⟨[c], ⟨c, rfl, fits⟩, rest, member, rfl⟩

theorem mem_many {p : Char → Bool} {text : List Char} :
    text ∈ (one p)∗ ↔ ∀ c ∈ text, p c = true := by
  induction text with
  | nil => simp [Language.nil_mem_kstar]
  | cons c rest ih =>
      rw [← Language.one_add_self_mul_kstar_eq_kstar, Language.mem_add, Language.mem_one,
        mem_one_mul, List.forall_mem_cons, ← ih]
      constructor
      · rintro (empty | ⟨_, _, same, fits, member⟩)
        · cases empty
        · cases same
          exact ⟨fits, member⟩
      · rintro ⟨fits, member⟩
        exact .inr ⟨c, rest, rfl, fits, member⟩

theorem mem_digits {text : List Char} : text ∈ digits ↔ isDigits text = true := by
  rw [digits, mem_one_mul]
  cases text with
  | nil => simp [isDigits]
  | cons c rest => simp [isDigits, mem_many]

theorem mem_whole {text : List Char} : text ∈ whole ↔ isWhole text = true := by
  have zero : text ∈ one (· == '0') ↔ text = ['0'] := by
    constructor
    · rintro ⟨c, rfl, same⟩
      rw [beq_iff_eq.mp same]
    · rintro rfl
      exact ⟨'0', rfl, rfl⟩
  rw [whole, Language.mem_add, zero, mem_one_mul]
  cases text with
  | nil => simp [isWhole, isDigits]
  | cons c rest =>
      simp [isWhole, isDigits, mem_many, and_assoc, and_comm, and_left_comm]

theorem mem_fraction {text : List Char} :
    text ∈ optional fraction ↔ isFraction text = true := by
  rw [mem_optional, fraction, mem_one_mul]
  cases text with
  | nil => simp [isFraction]
  | cons c rest =>
      by_cases point : c = '.'
      · simp [point, isFraction, mem_digits]
      · simp [point, isFraction]

theorem mem_sign {text : List Char} :
    text ∈ optional (one fun c => c == '+' || c == '-') ↔ IsExponentSign text := by
  rw [mem_optional]
  constructor
  · rintro (empty | ⟨c, rfl, fits⟩)
    · exact .inr (.inr empty)
    · rcases Bool.or_eq_true_iff.mp fits with plus | minus
      · exact .inl (by rw [beq_iff_eq.mp plus])
      · exact .inr (.inl (by rw [beq_iff_eq.mp minus]))
  · rintro (rfl | rfl | empty)
    · exact .inr ⟨'+', rfl, rfl⟩
    · exact .inr ⟨'-', rfl, rfl⟩
    · exact .inl empty

theorem mem_exponent {text : List Char} :
    text ∈ optional exponent ↔ isExponent text = true := by
  have signed (rest : List Char) :
      rest ∈ optional (one fun c => c == '+' || c == '-') * digits ↔
        isDigits (dropExponentSign rest) = true := by
    rw [Language.mem_mul]
    constructor
    · rintro ⟨sign, isSign, found, isFound, rfl⟩
      have isDigits := mem_digits.mp isFound
      rwa [dropExponentSign_sign (mem_sign.mp isSign) isDigits]
    · intro isDigits
      obtain ⟨sign, isSign, split⟩ := exists_exponentSign rest
      exact ⟨sign, mem_sign.mpr isSign, _, mem_digits.mpr isDigits, split.symm⟩
  rw [mem_optional, exponent, mem_one_mul]
  cases text with
  | nil => simp [isExponent]
  | cons c rest => simp [isExponent, signed]

theorem mem_minus {text : List Char} :
    text ∈ optional (one (· == '-')) ↔ text = ['-'] ∨ text = [] := by
  rw [mem_optional, or_comm]
  refine or_congr_left ⟨?_, ?_⟩
  · rintro ⟨c, rfl, same⟩
    rw [beq_iff_eq.mp same]
  · rintro rfl
    exact ⟨'-', rfl, rfl⟩

/-! Whole numbers against valid parts. -/

/-- What stands behind the whole part of a number tells which numbers a language holds. -/
theorem mem_parts {behind : Language Char} {parted : List Char → List Char → Prop}
    (cuts : ∀ rest, rest ∈ behind ↔ ∃ fraction exponent, isFraction fraction = true ∧
      isExponent exponent = true ∧ parted fraction exponent ∧ fraction ++ exponent = rest)
    {text : List Char} :
    text ∈ integer * behind ↔ ∃ parts : NumberParts, parts.Valid ∧
      parted parts.fraction parts.exponent ∧ parts.text = text := by
  constructor
  · rintro ⟨_, ⟨sign, isSign, whole, isWhole, rfl⟩, rest, member, rfl⟩
    obtain ⟨fraction, exponent, isFraction, isExponent, isParted, rfl⟩ := (cuts rest).mp member
    refine ⟨⟨sign, whole, fraction, exponent⟩, ?_, isParted, ?_⟩
    · exact ⟨mem_minus.mp isSign, mem_whole.mp isWhole, isFraction, isExponent⟩
    · simp [NumberParts.text]
  · rintro ⟨parts, valid, isParted, rfl⟩
    have whole : parts.sign ++ parts.whole ∈ integer :=
      ⟨_, mem_minus.mpr valid.sign, _, mem_whole.mpr valid.whole, rfl⟩
    have rest : parts.fraction ++ parts.exponent ∈ behind :=
      (cuts _).mpr ⟨_, _, valid.fraction, valid.exponent, isParted, rfl⟩
    exact ⟨_, whole, _, rest, by simp [NumberParts.text]⟩

theorem mem_number {text : List Char} :
    text ∈ number ↔ ∃ parts : NumberParts, parts.Valid ∧ parts.text = text := by
  have cuts (rest : List Char) : rest ∈ optional fraction * optional exponent ↔
      ∃ fraction exponent, isFraction fraction = true ∧ isExponent exponent = true ∧ True ∧
        fraction ++ exponent = rest := by
    simp only [Language.mem_mul, mem_fraction, mem_exponent, true_and, exists_and_left]
  rw [number]
  simpa only [true_and] using mem_parts cuts

theorem mem_integer {text : List Char} :
    text ∈ integer ↔ ∃ parts : NumberParts, parts.Valid ∧
      (parts.fraction = [] ∧ parts.exponent = []) ∧ parts.text = text := by
  have cuts (rest : List Char) : rest ∈ (1 : Language Char) ↔
      ∃ fraction exponent, isFraction fraction = true ∧ isExponent exponent = true ∧
        (fraction = [] ∧ exponent = []) ∧ fraction ++ exponent = rest := by
    rw [Language.mem_one]
    constructor
    · rintro rfl
      exact ⟨[], [], rfl, rfl, ⟨rfl, rfl⟩, rfl⟩
    · rintro ⟨_, _, _, _, ⟨rfl, rfl⟩, same⟩
      exact same.symm
  rw [← mul_one integer]
  exact mem_parts cuts

theorem mem_float {text : List Char} :
    text ∈ float ↔ ∃ parts : NumberParts, parts.Valid ∧
      ¬(parts.fraction = [] ∧ parts.exponent = []) ∧ parts.text = text := by
  have cuts (rest : List Char) : rest ∈ fraction * optional exponent + exponent ↔
      ∃ fraction exponent, isFraction fraction = true ∧ isExponent exponent = true ∧
        ¬(fraction = [] ∧ exponent = []) ∧ fraction ++ exponent = rest := by
    rw [Language.mem_add, Language.mem_mul]
    constructor
    · rintro (⟨first, isFraction, second, isExponent, same⟩ | isExponent)
      · refine ⟨first, second, mem_fraction.mp (mem_optional.mpr (.inr isFraction)),
          mem_exponent.mp isExponent, ?_, same⟩
        rintro ⟨rfl, _⟩
        obtain ⟨_, _, empty, _⟩ := mem_one_mul.mp isFraction
        cases empty
      · refine ⟨[], rest, rfl, mem_exponent.mp (mem_optional.mpr (.inr isExponent)), ?_, rfl⟩
        rintro ⟨_, rfl⟩
        obtain ⟨_, _, empty, _⟩ := mem_one_mul.mp isExponent
        cases empty
    · rintro ⟨first, second, isFraction, isExponent, several, rfl⟩
      have isExponent := mem_exponent.mpr isExponent
      rcases mem_optional.mp (mem_fraction.mpr isFraction) with rfl | isFraction
      · exact .inr ((mem_optional.mp isExponent).resolve_left fun empty => several ⟨rfl, empty⟩)
      · exact .inl ⟨first, isFraction, second, isExponent, rfl⟩
  exact mem_parts cuts

def Denotes (text : String) (found : Lexeme) : Prop :=
  (found = .int text ∧ text.toList ∈ integer) ∨ (found = .float text ∧ text.toList ∈ float)

theorem denotes_iff {text : String} {found : Lexeme} :
    Denotes text found ↔ ∃ parts : NumberParts, parts.Valid ∧ parts.text = text.toList ∧
      found = parts.lexeme := by
  rw [Denotes, mem_integer, mem_float]
  constructor
  · rintro (⟨rfl, parts, valid, none, same⟩ | ⟨rfl, parts, valid, some', same⟩)
    · refine ⟨parts, valid, same, ?_⟩
      simp [NumberParts.lexeme, none, same]
    · refine ⟨parts, valid, same, ?_⟩
      simp [NumberParts.lexeme, some', same]
  · rintro ⟨parts, valid, same, rfl⟩
    by_cases none : parts.fraction = [] ∧ parts.exponent = []
    · refine .inl ⟨?_, parts, valid, none, same⟩
      simp [NumberParts.lexeme, none, same]
    · refine .inr ⟨?_, parts, valid, none, same⟩
      simp [NumberParts.lexeme, none, same]

theorem exists_denotes {text : String} (isNumber : text.toList ∈ number) :
    ∃ found, Denotes text found := by
  obtain ⟨parts, valid, same⟩ := mem_number.mp isNumber
  exact ⟨_, denotes_iff.mpr ⟨parts, valid, same, rfl⟩⟩

/-- The longest word of a language that a text begins with. -/
structure Longest (words : Language Char) (text word : List Char) : Prop where
  member : word ∈ words
  isPrefix : word <+: text
  longest : ∀ other ∈ words, other <+: text → other.length ≤ word.length

/-- What a text begins with may stand behind a number. -/
def MayFollow (text : List Char) : Prop :=
  ∀ c ∈ text.head?, c.isDigit = false ∧ c ≠ '.' ∧ c ≠ '_' ∧ c.isAlpha = false

theorem mayFollow_nil : MayFollow [] := by
  rintro _ ⟨⟩

theorem mayFollow_iff {text : List Char} :
    MayFollow text ↔ Halts Char.isDigit text ∧ continuesNumber text = false := by
  cases text with
  | nil => simp [MayFollow, Halts, continuesNumber]
  | cons c rest =>
      simp [MayFollow, Halts, continuesNumber, isNameStart, and_comm, and_left_comm]

theorem MayFollow.cut {text other : List Char} (follows : MayFollow text) (cut : other <+: text) :
    MayFollow other := by
  obtain ⟨left, rfl⟩ := cut
  cases other with
  | nil => exact mayFollow_nil
  | cons c rest => exact follows

structure Munches (text word : List Char) : Prop where
  longest : Longest number text word
  follows : MayFollow (text.drop word.length)

theorem read_parts {parts : NumberParts} (valid : parts.Valid) {rest : List Char}
    (follows : MayFollow rest) :
    Lexical.number (parts.text ++ rest) = .done parts.text.length parts.lexeme := by
  obtain ⟨halts, ends⟩ := mayFollow_iff.mp follows
  exact number_eq_done valid halts ends

/-- No number goes on where another one may end: both would be read from the longer text. -/
theorem longest_of_follows {parts : NumberParts} (valid : parts.Valid) {rest : List Char}
    (follows : MayFollow rest) : Longest number (parts.text ++ rest) parts.text where
  member := mem_number.mpr ⟨parts, valid, rfl⟩
  isPrefix := List.prefix_append _ _
  longest other isNumber isPrefix := by
    obtain ⟨whole, validToo, rfl⟩ := mem_number.mp isNumber
    rcases Nat.le_total whole.text.length parts.text.length with shorter | longer
    · exact shorter
    · obtain ⟨left, same⟩ :=
        List.prefix_of_prefix_length_le (List.prefix_append parts.text rest) isPrefix longer
      have cut : left <+: rest := by
        rwa [← same, List.prefix_append_right_inj] at isPrefix
      have first := read_parts valid (follows.cut cut)
      have second := read_parts validToo mayFollow_nil
      rw [List.append_nil, ← same, first] at second
      have length : parts.text.length = (parts.text ++ left).length :=
        congrArg Reading.size second
      rw [← same, ← length]

/-- The reader takes the numbers of the grammar. -/
theorem number_iff {text : List Char} {size : Nat} {found : Lexeme} :
    Lexical.number text = .done size found ↔
      ∃ word : String, Munches text word.toList ∧ Denotes word found ∧
        size = word.toList.length := by
  constructor
  · intro read
    obtain ⟨parts, valid, rfl, rfl, rest, rfl, halts, ends⟩ := number_ok read
    have follows : MayFollow rest := mayFollow_iff.mpr ⟨halts, ends⟩
    have text : (String.ofList parts.text).toList = parts.text := String.toList_ofList
    refine ⟨String.ofList parts.text, ⟨?_, ?_⟩, denotes_iff.mpr ⟨parts, valid, text.symm, rfl⟩, ?_⟩
    · rw [text]
      exact longest_of_follows valid follows
    · rwa [text, List.drop_left]
    · rw [text]
  · rintro ⟨word, ⟨longest, follows⟩, denotes, rfl⟩
    obtain ⟨parts, valid, same, rfl⟩ := denotes_iff.mp denotes
    obtain ⟨rest, rfl⟩ := longest.isPrefix
    rw [List.drop_left] at follows
    rw [← same]
    exact read_parts valid follows

end NumberGrammar

/-! What keeps a text from being a number. -/

def RefusesNumber (reading : Reading α) : Prop :=
  ∀ fault, reading.outcome = .error fault → fault.kind = .invalidNumber

namespace RefusesNumber

theorem done (size : Nat) (value : α) : RefusesNumber (.done size value) := by
  rintro _ ⟨⟩

theorem missing (found : Option Char) :
    RefusesNumber (.fail (.missingDigit found) : Reading α) := by
  rintro _ ⟨⟩
  rfl

theorem behind {reading : Reading α} (refuses : RefusesNumber reading) (size : Nat) :
    RefusesNumber (reading.behind size) := refuses

theorem map {reading : Reading α} (refuses : RefusesNumber reading) (change : α → β) :
    RefusesNumber (reading.map change) := by
  intro fault failed
  cases outcome : reading.outcome with
  | ok value => simp [Reading.map, outcome, Except.map] at failed
  | error other =>
      obtain rfl : other = fault := by
        simpa [Reading.map, outcome, Except.map] using failed
      exact refuses other outcome

theorem bind {reading : Reading α} (refuses : RefusesNumber reading) {next : α → Reading β}
    (onward : ∀ value, RefusesNumber (next value)) : RefusesNumber (reading >>= next) := by
  intro fault failed
  simp only [Bind.bind, Reading.andThen] at failed
  cases outcome : reading.outcome with
  | ok value =>
      rw [outcome] at failed
      exact onward value fault failed
  | error other =>
      rw [outcome] at failed
      cases failed
      exact refuses _ outcome

end RefusesNumber

theorem digits_refuses (text : List Char) : RefusesNumber (digits text) := by
  unfold digits
  split
  · exact .missing _
  · exact .done _ _

theorem minus_refuses (text : List Char) : RefusesNumber (minus text) := by
  unfold minus
  split <;> exact .done _ _

theorem wholePart_refuses (text : List Char) : RefusesNumber (wholePart text) := by
  unfold wholePart
  split
  · split
    · rintro _ ⟨⟩
      rfl
    · exact .done _ _
  · exact .done _ _
  · exact digits_refuses _

theorem fractionPart_refuses (text : List Char) : RefusesNumber (fractionPart text) := by
  unfold fractionPart
  split
  · exact ((digits_refuses _).map _).behind 1
  · exact .done _ _

theorem exponentSign_refuses (text : List Char) : RefusesNumber (exponentSign text) := by
  unfold exponentSign
  split
  · exact .done _ _
  · exact minus_refuses _

theorem exponentPart_refuses (text : List Char) : RefusesNumber (exponentPart text) := by
  unfold exponentPart
  split
  · exact .done _ _
  · split
    · refine RefusesNumber.behind ?_ 1
      refine (exponentSign_refuses _).bind fun sign => ?_
      exact (digits_refuses _).bind fun found => .done _ _
    · exact .done _ _

theorem number_refuses (text : List Char) : RefusesNumber (number text) := by
  refine (minus_refuses text).bind fun sign => ?_
  refine (wholePart_refuses _).bind fun whole => ?_
  refine (fractionPart_refuses _).bind fun fraction => ?_
  refine (exponentPart_refuses _).bind fun exponent => ?_
  obtain ⟨digits, rest⟩ := exponent
  dsimp only
  split
  · exact .missing _
  · exact .done _ _

end GraphQL.Lexical

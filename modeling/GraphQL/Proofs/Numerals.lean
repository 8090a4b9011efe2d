import GraphQL.Number.Numeral
import GraphQL.Proofs.Lexical.NumberGrammar
import Mathlib.Data.Nat.Digits.Defs

/-!
What the numbers of the grammar name. Each of its texts is a numeral, whatever its length: an
integer is read as the number that it spells place by place, unless it takes more than 64 bits, and
the decimal that the parts of any number spell is what becomes a double.
-/

namespace GraphQL

namespace Lexical

def placeValue (digits : List Char) : Nat :=
  Nat.ofDigits 10 (digits.reverse.map fun c => c.toNat - 48)

def signedValue : List Char → Int
  | '-' :: digits => -(placeValue digits : Int)
  | '+' :: digits => placeValue digits
  | digits => placeValue digits

namespace NumberParts

def isNegative (parts : NumberParts) : Bool := parts.sign == ['-']

def digits (parts : NumberParts) : List Char := parts.whole ++ parts.fraction.drop 1

def power (parts : NumberParts) : Int :=
  signedValue (parts.exponent.drop 1) - ((parts.fraction.drop 1).length : Int)

/-- The double nearest to the decimal that the parts spell. -/
def double (parts : NumberParts) : Binary64 :=
  .ofDecimal parts.isNegative (placeValue parts.digits) parts.power

end NumberParts

end Lexical

open Lexical

namespace Numeral

theorem ofDigits_eq_placeValue (digits : List Char) : ofDigits digits = placeValue digits := by
  induction digits using List.reverseRecOn with
  | nil => rfl
  | append_singleton digits c ih =>
      calc ofDigits (digits ++ [c])
        _ = ofDigits digits * 10 + (c.toNat - 48) := by simp [ofDigits]
        _ = (c.toNat - 48) + 10 * placeValue digits := by rw [ih]; omega
        _ = placeValue (digits ++ [c]) := by simp [placeValue, Nat.ofDigits_cons]

theorem ne_of_isDigit {c : Char} (digit : c.isDigit = true) :
    c ≠ '-' ∧ c ≠ '+' ∧ c.toLower ≠ 'n' ∧ c.toLower ≠ 'i' := by
  have stays : c.toLower = c := by
    have small : ¬(c.val ≥ 65 ∧ c.val ≤ 90) := by
      simp only [Char.isDigit, Bool.and_eq_true, decide_eq_true_eq] at digit
      intro capital
      exact absurd (UInt32.le_trans capital.1 digit.2) (by decide)
    exact dif_neg small
  rw [stays]
  refine ⟨?_, ?_, ?_, ?_⟩ <;> rintro rfl <;> exact absurd digit (by decide)

theorem splitSign_of_sign {sign unsigned : List Char} (isSign : IsExponentSign sign)
    (begins : ∃ c rest, unsigned = c :: rest ∧ c.isDigit = true) :
    splitSign (sign ++ unsigned) = (sign == ['-'], unsigned) ∧
      signedValue (sign ++ unsigned) =
        if sign == ['-'] then -(placeValue unsigned : Int) else placeValue unsigned := by
  rcases isSign with rfl | rfl | rfl
  · exact ⟨rfl, rfl⟩
  · exact ⟨rfl, rfl⟩
  · obtain ⟨c, rest, rfl, digit⟩ := begins
    obtain ⟨noMinus, noPlus, _⟩ := ne_of_isDigit digit
    constructor
    · unfold splitSign
      split <;> simp_all
    · unfold signedValue
      split <;> simp_all

theorem integer?_of_sign {sign unsigned : List Char} (isSign : IsExponentSign sign)
    (isDigits : isDigits unsigned = true) :
    integer? (sign ++ unsigned) = some (signedValue (sign ++ unsigned)) := by
  obtain ⟨split, value⟩ := splitSign_of_sign isSign (digit_of_isDigits isDigits)
  have isNumeral : ¬(unsigned.isEmpty || !unsigned.all Char.isDigit) = true := by
    simp only [Lexical.isDigits, Bool.and_eq_true, Bool.not_eq_true'] at isDigits
    simp [isDigits]
  rw [integer?, split, value]
  simp only [if_neg isNumeral, ofDigits_eq_placeValue]

/-- An integer of the grammar is read exactly if it takes at most 64 bits. -/
theorem int64?_of_parts {parts : NumberParts} (valid : parts.Valid)
    (isInteger : parts.fraction = [] ∧ parts.exponent = []) :
    int64? parts.text =
      if -2 ^ 63 ≤ signedValue parts.text ∧ signedValue parts.text < 2 ^ 63 then
        some (signedValue parts.text)
      else none := by
  have whole : parts.text = parts.sign ++ parts.whole := by
    simp [NumberParts.text, isInteger]
  have read := integer?_of_sign (.inr valid.sign)
    (isDigits_of_isWhole valid.whole)
  rw [← whole] at read
  rw [int64?, read]
  have within : (minInt64 ≤ signedValue parts.text && signedValue parts.text ≤ maxInt64) =
      decide (-2 ^ 63 ≤ signedValue parts.text ∧ signedValue parts.text < 2 ^ 63) := by
    rw [Bool.eq_iff_iff]
    simp only [Bool.and_eq_true, decide_eq_true_eq]
    rw [minInt64, maxInt64]
    omega
  simp only [Option.filter, within, decide_eq_true_eq]

theorem splitFraction_of_parts {parts : NumberParts} (valid : parts.Valid) :
    splitFraction (parts.fraction ++ parts.exponent) =
      (parts.fraction.drop 1, parts.exponent) := by
  have isFraction := valid.fraction
  have halts := valid.exponent_halts Char.isDigit (by decide) (by decide)
  unfold Lexical.isFraction at isFraction
  split at isFraction
  · rename_i none
    rw [none, List.nil_append, splitFraction]
    · rfl
    · rintro rest begins
      have mark := valid.exponent_begins '.' (by rw [begins]; rfl)
      exact absurd mark (by decide)
  · rename_i digits found
    have all := all_of_isDigits isFraction
    rw [found, List.cons_append, splitFraction, takeWhile_halts all halts,
      dropWhile_halts all halts]
    rfl
  · simp at isFraction

theorem exponent?_of_parts {parts : NumberParts} (valid : parts.Valid) :
    exponent? parts.exponent = some (signedValue (parts.exponent.drop 1)) := by
  have isExponent := valid.exponent
  cases found : parts.exponent with
  | nil => rfl
  | cons c rest =>
      have mark := valid.exponent_begins c (by rw [found]; rfl)
      rw [found] at isExponent
      simp only [Lexical.isExponent, Bool.and_eq_true] at isExponent
      obtain ⟨sign, isSign, same⟩ := exists_exponentSign rest
      rw [exponent?, if_pos mark, List.drop_one, List.tail_cons, same]
      exact integer?_of_sign isSign isExponent.2

theorem ne_word {digits rest : List Char} (isDigits : isDigits digits = true) (word : String)
    (begins : word.toList.head? = some 'n' ∨ word.toList.head? = some 'i') :
    String.ofList ((digits ++ rest).map Char.toLower) ≠ word := by
  rintro rfl
  obtain ⟨c, others, rfl, digit⟩ := digit_of_isDigits isDigits
  obtain ⟨_, _, notNan, notInfinity⟩ := ne_of_isDigit digit
  rw [String.toList_ofList] at begins
  rcases begins with same | same
  · exact notNan (Option.some.inj same)
  · exact notInfinity (Option.some.inj same)

/-- Every number of the grammar is a decimal numeral, and the decimal that its parts spell is what
is rounded. -/
theorem decimal?_of_parts {parts : NumberParts} (valid : parts.Valid) :
    decimal? parts.text = some parts.double := by
  have isDigits := isDigits_of_isWhole valid.whole
  have all := all_of_isDigits isDigits
  have halts : Halts Char.isDigit (parts.fraction ++ parts.exponent) :=
    halts_append (isFraction_halts valid.fraction) (valid.exponent_halts _ (by decide) (by decide))
  have unsigned : splitSign parts.text =
      (parts.isNegative, parts.whole ++ (parts.fraction ++ parts.exponent)) := by
    obtain ⟨c, rest, same, digit⟩ := digit_of_isDigits isDigits
    have begins : parts.whole ++ (parts.fraction ++ parts.exponent) =
        c :: (rest ++ (parts.fraction ++ parts.exponent)) := by rw [same, List.cons_append]
    exact (splitSign_of_sign (.inr valid.sign) ⟨c, _, begins, digit⟩).1
  have nonempty : parts.whole.isEmpty = false := by
    simp only [Lexical.isDigits, Bool.and_eq_true, Bool.not_eq_true'] at isDigits
    exact isDigits.1
  rw [decimal?, unsigned]
  simp only [if_neg (ne_word isDigits "nan" (.inl rfl)), ne_word isDigits "inf" (.inr rfl),
    ne_word isDigits "infinity" (.inr rfl),
    or_self, if_false, takeWhile_halts all halts, dropWhile_halts all halts,
    splitFraction_of_parts valid, exponent?_of_parts valid, nonempty, Bool.false_and,
    Bool.false_eq_true, ofDigits_eq_placeValue]
  rfl

/-- The parts of an integer spell the double that is nearest to it. -/
theorem double_of_integer {parts : NumberParts} (valid : parts.Valid)
    (isInteger : parts.fraction = [] ∧ parts.exponent = [])
    (nonzero : signedValue parts.text ≠ 0) :
    parts.double = .ofInt (signedValue parts.text) := by
  have value := (splitSign_of_sign (.inr valid.sign)
    (digit_of_isDigits (isDigits_of_isWhole valid.whole))).2
  have whole : parts.text = parts.sign ++ parts.whole := by
    simp [NumberParts.text, isInteger]
  have power : parts.power = 0 := by
    simp [NumberParts.power, isInteger, signedValue, placeValue]
  have digits : parts.digits = parts.whole := by simp [NumberParts.digits, isInteger]
  rw [whole] at nonzero ⊢
  rw [NumberParts.double, power, digits, Binary64.ofInt]
  rw [value] at nonzero ⊢
  have isSpelled : parts.isNegative = (parts.sign == ['-']) := rfl
  rw [isSpelled]
  by_cases negative : (parts.sign == ['-']) = true
  · simp only [negative, if_true] at nonzero ⊢
    have below : -(placeValue parts.whole : Int) < 0 := by omega
    rw [Int.natAbs_neg, Int.natAbs_natCast, decide_eq_true below]
  · simp only [negative, Bool.false_eq_true, if_false]
    have above : ¬((placeValue parts.whole : Int) < 0) := by omega
    rw [Int.natAbs_natCast, decide_eq_false above]

end Numeral

end GraphQL

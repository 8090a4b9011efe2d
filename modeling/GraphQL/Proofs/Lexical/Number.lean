import GraphQL.Proofs.Lexical.Halts
import GraphQL.Proofs.Lexical.Proper

/-!
Numbers are read exactly by their grammar: a number in front of a text that does not go on
with it is read as a whole, and whatever is read as a number is one.
-/

namespace GraphQL.Lexical

theorem digit_of_isDigits {text : List Char} (digits : isDigits text = true) :
    ∃ c rest, text = c :: rest ∧ c.isDigit = true := by
  cases text with
  | nil => simp [isDigits] at digits
  | cons c rest =>
      simp only [isDigits, List.all_cons, Bool.and_eq_true] at digits
      exact ⟨c, rest, rfl, digits.2.1⟩

theorem all_of_isDigits {text : List Char} (digits : isDigits text = true) :
    ∀ c ∈ text, c.isDigit = true := by
  simp only [isDigits, Bool.and_eq_true, List.all_eq_true] at digits
  exact digits.2

theorem isDigits_of_isWhole {text : List Char} (whole : isWhole text = true) :
    isDigits text = true := by
  simp only [isWhole, Bool.or_eq_true, Bool.and_eq_true, beq_iff_eq] at whole
  rcases whole with rfl | ⟨digits, _⟩
  · rfl
  · exact digits

theorem digits_eq_done {found rest : List Char} (isFound : isDigits found = true)
    (halts : Halts Char.isDigit rest) :
    digits (found ++ rest) = .done found.length (found, rest) := by
  have all := all_of_isDigits isFound
  obtain ⟨c, others, rfl, _⟩ := digit_of_isDigits isFound
  simp only [digits, takeWhile_halts all halts, dropWhile_halts all halts]

theorem digits_ok {text : List Char} {size : Nat} {part : Part}
    (read : digits text = ⟨size, .ok part⟩) :
    isDigits part.1 = true ∧ text = part.1 ++ part.2 ∧ size = part.1.length ∧
      Halts Char.isDigit part.2 := by
  have all : ∀ c ∈ text.takeWhile Char.isDigit, c.isDigit = true :=
    List.all_eq_true.mp List.all_takeWhile
  unfold digits at read
  split at read
  · simp [Reading.fail] at read
  · rename_i nonempty
    simp only [Reading.done, Reading.mk.injEq, Except.ok.injEq] at read
    obtain ⟨rfl, rfl⟩ := read
    refine ⟨?_, (List.takeWhile_append_dropWhile).symm, rfl, halts_dropWhile text⟩
    simp only [isDigits, Bool.and_eq_true, Bool.not_eq_true', List.isEmpty_eq_false_iff,
      List.all_eq_true]
    exact ⟨nonempty, all⟩

/-- A sign is a minus or nothing at all in front of a text that does not begin with one. -/
def IsSign (sign unsigned : List Char) : Prop :=
  sign = ['-'] ∨ (sign = [] ∧ unsigned.head? ≠ some '-')

theorem exists_sign (text : List Char) :
    ∃ sign, text = sign ++ dropMinus text ∧ (sign = ['-'] ∨ sign = []) := by
  unfold dropMinus
  split
  · exact ⟨['-'], rfl, .inl rfl⟩
  · exact ⟨[], rfl, .inr rfl⟩

theorem dropMinus_sign {sign unsigned : List Char} (isSign : IsSign sign unsigned) :
    dropMinus (sign ++ unsigned) = unsigned := by
  rcases isSign with rfl | ⟨rfl, plain⟩
  · rfl
  · simp only [List.nil_append, dropMinus]
    split
    · exact absurd rfl plain
    · rfl

theorem isSign_of_digits {sign unsigned : List Char} (isSign : sign = ['-'] ∨ sign = [])
    (digit : ∃ c ∈ unsigned.head?, c.isDigit = true) : IsSign sign unsigned := by
  refine isSign.imp_right fun none => ⟨none, ?_⟩
  obtain ⟨c, member, isDigit⟩ := digit
  rw [Option.mem_def.mp member]
  rintro ⟨⟩
  exact absurd isDigit (by decide)

theorem minus_eq_done {sign unsigned : List Char} (isSign : IsSign sign unsigned) :
    minus (sign ++ unsigned) = .done sign.length (sign, unsigned) := by
  rcases isSign with rfl | ⟨rfl, plain⟩
  · rfl
  · simp only [List.nil_append, minus]
    split
    · exact absurd rfl plain
    · rfl

theorem minus_ok {text : List Char} {size : Nat} {part : Part}
    (read : minus text = ⟨size, .ok part⟩) :
    IsSign part.1 part.2 ∧ text = part.1 ++ part.2 ∧ size = part.1.length := by
  unfold minus at read
  split at read
  · simp only [Reading.done, Reading.mk.injEq, Except.ok.injEq] at read
    obtain ⟨rfl, rfl⟩ := read
    exact ⟨.inl rfl, rfl, rfl⟩
  · rename_i plain
    simp only [Reading.done, Reading.mk.injEq, Except.ok.injEq] at read
    obtain ⟨rfl, rfl⟩ := read
    refine ⟨.inr ⟨rfl, fun begins => ?_⟩, rfl, rfl⟩
    cases text with
    | nil => cases begins
    | cons c rest =>
        obtain rfl : c = '-' := by simpa using begins
        exact plain rest rfl

theorem wholePart_eq_done {whole rest : List Char} (isWhole : isWhole whole = true)
    (halts : Halts Char.isDigit rest) :
    wholePart (whole ++ rest) = .done whole.length (whole, rest) := by
  have found := isDigits_of_isWhole isWhole
  simp only [Lexical.isWhole, Bool.or_eq_true, Bool.and_eq_true, beq_iff_eq, bne_iff_ne] at isWhole
  rcases isWhole with rfl | ⟨_, noZero⟩
  · cases rest with
    | nil => rfl
    | cons c rest => simp [wholePart, halts c rfl]
  · obtain ⟨c, others, rfl, _⟩ := digit_of_isDigits found
    have different : c ≠ '0' := by simpa using noZero
    rw [← digits_eq_done found halts]
    unfold wholePart
    split
    · rename_i same
      exact absurd (List.cons.inj same).1 different
    · rename_i same
      exact absurd (List.cons.inj same).1 different
    · rfl

theorem wholePart_ok {text : List Char} {size : Nat} {part : Part}
    (read : wholePart text = ⟨size, .ok part⟩) :
    isWhole part.1 = true ∧ text = part.1 ++ part.2 ∧ size = part.1.length ∧
      Halts Char.isDigit part.2 := by
  unfold wholePart at read
  split at read
  · split at read
    · simp at read
    · rename_i noDigit
      simp only [Reading.done, Reading.mk.injEq, Except.ok.injEq] at read
      obtain ⟨rfl, rfl⟩ := read
      exact ⟨rfl, rfl, rfl, halts_cons (by simpa using noDigit)⟩
  · simp only [Reading.done, Reading.mk.injEq, Except.ok.injEq] at read
    obtain ⟨rfl, rfl⟩ := read
    exact ⟨rfl, rfl, rfl, halts_nil⟩
  · rename_i several single
    obtain ⟨isFound, split, length, halts⟩ := digits_ok read
    obtain ⟨c, others, same, _⟩ := digit_of_isDigits isFound
    refine ⟨?_, split, length, halts⟩
    have noZero : part.1.head? ≠ some '0' := by
      intro zero
      obtain rfl : c = '0' := by simpa [same] using zero
      rw [same] at split
      cases behind : others ++ part.2 with
      | nil => exact single (by rw [split, List.cons_append, behind])
      | cons d rest => exact several d rest (by rw [split, List.cons_append, behind])
    simp [isWhole, isFound, noZero]

theorem fractionPart_eq_done {fraction rest : List Char} (isFraction : isFraction fraction = true)
    (halts : Halts Char.isDigit rest) (noPoint : Halts (· == '.') rest) :
    fractionPart (fraction ++ rest) = .done fraction.length (fraction, rest) := by
  unfold Lexical.isFraction at isFraction
  split at isFraction
  · simp only [List.nil_append, fractionPart]
    split
    · exact absurd (noPoint '.' rfl) (by decide)
    · rfl
  · simp only [List.cons_append, fractionPart, digits_eq_done isFraction halts]
    simp [Reading.done, Reading.map, Reading.behind, Except.map, Nat.add_comm]
  · simp at isFraction

theorem fractionPart_ok {text : List Char} {size : Nat} {part : Part}
    (halts : Halts Char.isDigit text) (read : fractionPart text = ⟨size, .ok part⟩) :
    isFraction part.1 = true ∧ text = part.1 ++ part.2 ∧ size = part.1.length ∧
      Halts Char.isDigit part.2 := by
  unfold fractionPart at read
  split at read
  · rename_i rest
    cases outcome : (digits rest).outcome with
    | error fault => simp [Reading.behind, Reading.map, outcome, Except.map] at read
    | ok found =>
        simp only [Reading.behind, Reading.map, outcome, Except.map, Reading.mk.injEq,
          Except.ok.injEq] at read
        obtain ⟨rfl, rfl⟩ := read
        obtain ⟨isFound, split, length, halts⟩ :=
          digits_ok (show digits rest = ⟨(digits rest).size, .ok found⟩ by rw [← outcome])
        exact ⟨isFound, by simp [split], by simp [length, Nat.add_comm], halts⟩
  · simp only [Reading.done, Reading.mk.injEq, Except.ok.injEq] at read
    obtain ⟨rfl, rfl⟩ := read
    exact ⟨rfl, rfl, rfl, halts⟩

def IsExponentSign (sign : List Char) : Prop := sign = ['+'] ∨ sign = ['-'] ∨ sign = []

theorem exponentSign_eq_done {sign found : List Char} (isSign : IsExponentSign sign)
    (isFound : isDigits found = true) (rest : List Char) :
    exponentSign (sign ++ (found ++ rest)) = .done sign.length (sign, found ++ rest) := by
  obtain ⟨c, others, rfl, isDigit⟩ := digit_of_isDigits isFound
  have noPlus : c ≠ '+' := by
    rintro rfl
    exact absurd isDigit (by decide)
  have noMinus : c ≠ '-' := by
    rintro rfl
    exact absurd isDigit (by decide)
  rcases isSign with rfl | rfl | rfl
  · rfl
  · rfl
  · simp only [List.nil_append, List.cons_append]
    unfold exponentSign
    split
    · rename_i same
      exact absurd (List.cons.inj same).1 noPlus
    · exact minus_eq_done (.inr ⟨rfl, by simpa using noMinus⟩)

theorem exponentSign_ok {text : List Char} {size : Nat} {part : Part}
    (read : exponentSign text = ⟨size, .ok part⟩) :
    IsExponentSign part.1 ∧ text = part.1 ++ part.2 ∧ size = part.1.length := by
  unfold exponentSign at read
  split at read
  · simp only [Reading.done, Reading.mk.injEq, Except.ok.injEq] at read
    obtain ⟨rfl, rfl⟩ := read
    exact ⟨.inl rfl, rfl, rfl⟩
  · obtain ⟨isSign, split, length⟩ := minus_ok read
    exact ⟨.inr (isSign.imp_right And.left), split, length⟩

theorem dropExponentSign_sign {sign found : List Char} (isSign : IsExponentSign sign)
    (isFound : isDigits found = true) : dropExponentSign (sign ++ found) = found := by
  obtain ⟨c, others, rfl, isDigit⟩ := digit_of_isDigits isFound
  rcases isSign with rfl | rfl | rfl
  · rfl
  · rfl
  · simp only [List.nil_append]
    unfold dropExponentSign
    split
    · rename_i same
      rw [(List.cons.inj same).1] at isDigit
      exact absurd isDigit (by decide)
    · rename_i same
      rw [(List.cons.inj same).1] at isDigit
      exact absurd isDigit (by decide)
    · rfl

theorem exists_exponentSign (text : List Char) :
    ∃ sign, IsExponentSign sign ∧ text = sign ++ dropExponentSign text := by
  unfold dropExponentSign
  split
  · exact ⟨['+'], .inl rfl, rfl⟩
  · exact ⟨['-'], .inr (.inl rfl), rfl⟩
  · exact ⟨[], .inr (.inr rfl), rfl⟩

theorem exponentPart_eq_done {exponent rest : List Char} (isExponent : isExponent exponent = true)
    (halts : Halts Char.isDigit rest) (noMark : Halts isExponentMark rest) :
    exponentPart (exponent ++ rest) = .done exponent.length (exponent, rest) := by
  cases exponent with
  | nil =>
      cases rest with
      | nil => rfl
      | cons c rest =>
          have other : ¬(c = 'e' ∨ c = 'E') := by
            simpa [isExponentMark] using noMark c rfl
          simp [exponentPart, other]
  | cons c behind =>
      simp only [Lexical.isExponent, Bool.and_eq_true] at isExponent
      have mark : c = 'e' ∨ c = 'E' := by simpa [isExponentMark] using isExponent.1
      obtain ⟨sign, isSign, split⟩ := exists_exponentSign behind
      have signed := exponentSign_eq_done isSign isExponent.2 rest
      have found := digits_eq_done isExponent.2 halts
      rw [split, List.cons_append, List.append_assoc]
      simp only [exponentPart, mark, if_true, bind, Reading.andThen, signed, Reading.done, found,
        Reading.behind, pure]
      simp [Nat.add_comm, Nat.add_left_comm]

theorem exponentPart_ok {text : List Char} {size : Nat} {part : Part}
    (halts : Halts Char.isDigit text) (read : exponentPart text = ⟨size, .ok part⟩) :
    isExponent part.1 = true ∧ text = part.1 ++ part.2 ∧ size = part.1.length ∧
      Halts Char.isDigit part.2 := by
  unfold exponentPart at read
  split at read
  · simp only [Reading.done, Reading.mk.injEq, Except.ok.injEq] at read
    obtain ⟨rfl, rfl⟩ := read
    exact ⟨rfl, rfl, rfl, halts_nil⟩
  · rename_i c rest
    split at read
    · rename_i mark
      cases signed : (exponentSign rest).outcome with
      | error fault => simp [bind, Reading.andThen, Reading.behind, signed] at read
      | ok sign =>
          cases found : (digits sign.2).outcome with
          | error fault => simp [bind, Reading.andThen, Reading.behind, signed, found] at read
          | ok digits' =>
              simp only [bind, Reading.andThen, Reading.behind, signed, found, pure, Reading.done,
                Reading.mk.injEq, Except.ok.injEq] at read
              obtain ⟨rfl, rfl⟩ := read
              obtain ⟨isSign, split, length⟩ := exponentSign_ok
                (show exponentSign rest = ⟨(exponentSign rest).size, .ok sign⟩ by rw [← signed])
              obtain ⟨isFound, splitFound, lengthFound, haltsFound⟩ := digits_ok
                (show digits sign.2 = ⟨(digits sign.2).size, .ok digits'⟩ by rw [← found])
              have isMark : isExponentMark c = true := by simpa [isExponentMark] using mark
              refine ⟨?_, ?_, ?_, haltsFound⟩
              · simp only [isExponent, isMark, Bool.true_and]
                rw [dropExponentSign_sign isSign isFound]
                exact isFound
              · rw [split, splitFound]
                simp
              · simp [length, lengthFound, Nat.add_comm]
    · simp only [Reading.done, Reading.mk.injEq, Except.ok.injEq] at read
      obtain ⟨rfl, rfl⟩ := read
      exact ⟨rfl, rfl, rfl, halts⟩

theorem isFraction_halts {fraction : List Char} (isFraction : isFraction fraction = true) :
    Halts Char.isDigit fraction := by
  unfold Lexical.isFraction at isFraction
  split at isFraction
  · exact halts_nil
  · exact halts_cons (by decide)
  · simp at isFraction

theorem isFraction_noMark {fraction : List Char} (isFraction : isFraction fraction = true) :
    ∀ c ∈ fraction, (!isExponentMark c) = true := by
  intro c member
  unfold Lexical.isFraction at isFraction
  split at isFraction
  · cases member
  · rcases List.mem_cons.mp member with rfl | later
    · rfl
    · have isDigit := all_of_isDigits isFraction c later
      simp only [isExponentMark, Bool.not_eq_true', Bool.or_eq_false_iff, beq_eq_false_iff_ne]
      constructor <;> rintro rfl <;> exact absurd isDigit (by decide)
  · simp at isFraction

structure NumberParts where
  sign : List Char
  whole : List Char
  fraction : List Char
  exponent : List Char

namespace NumberParts

def text (parts : NumberParts) : List Char :=
  parts.sign ++ (parts.whole ++ (parts.fraction ++ parts.exponent))

def lexeme (parts : NumberParts) : Lexeme :=
  if parts.fraction.isEmpty && parts.exponent.isEmpty then .int (String.ofList parts.text)
  else .float (String.ofList parts.text)

structure Valid (parts : NumberParts) : Prop where
  sign : parts.sign = ['-'] ∨ parts.sign = []
  whole : isWhole parts.whole = true
  fraction : isFraction parts.fraction = true
  exponent : isExponent parts.exponent = true

variable {parts : NumberParts}

theorem Valid.isSign (valid : parts.Valid) (behind : List Char) :
    IsSign parts.sign (parts.whole ++ behind) := by
  obtain ⟨c, rest, same, isDigit⟩ := digit_of_isDigits (isDigits_of_isWhole valid.whole)
  exact isSign_of_digits valid.sign ⟨c, by simp [same], isDigit⟩

theorem Valid.exponent_begins (valid : parts.Valid) :
    ∀ c ∈ parts.exponent.head?, c = 'e' ∨ c = 'E' := by
  intro c member
  have isExponent := valid.exponent
  cases same : parts.exponent with
  | nil => simp [same] at member
  | cons d rest =>
      obtain rfl : d = c := by simpa [same] using member
      simp only [same, Lexical.isExponent, Bool.and_eq_true] at isExponent
      simpa [isExponentMark] using isExponent.1

theorem Valid.exponent_halts (valid : parts.Valid) (p : Char → Bool) (small : p 'e' = false)
    (capital : p 'E' = false) : Halts p parts.exponent := by
  intro c member
  rcases valid.exponent_begins c member with rfl | rfl
  · exact small
  · exact capital

theorem Valid.isProper (valid : parts.Valid) : parts.lexeme.isProper = true := by
  have unsigned : dropMinus parts.text = parts.whole ++ (parts.fraction ++ parts.exponent) :=
    dropMinus_sign (valid.isSign _)
  have digits := all_of_isDigits (isDigits_of_isWhole valid.whole)
  have halts : Halts Char.isDigit (parts.fraction ++ parts.exponent) :=
    halts_append (isFraction_halts valid.fraction) (valid.exponent_halts _ (by decide) (by decide))
  have noMark : Halts (fun c => !isExponentMark c) parts.exponent :=
    valid.exponent_halts _ (by decide) (by decide)
  unfold lexeme
  split
  · rename_i none
    simp only [Bool.and_eq_true, List.isEmpty_iff] at none
    simpa [Lexeme.isProper, isInt, unsigned, none.1, none.2] using valid.whole
  · rename_i some
    have isBehind : (parts.fraction ++ parts.exponent).isEmpty = false := by
      simpa using some
    simp only [Lexeme.isProper, isFloat, String.toList_ofList, unsigned,
      takeWhile_halts digits halts, dropWhile_halts digits halts,
      takeWhile_halts (isFraction_noMark valid.fraction) noMark,
      dropWhile_halts (isFraction_noMark valid.fraction) noMark,
      valid.whole, valid.fraction, valid.exponent, isBehind]
    rfl

end NumberParts

/-- A number in front of a text that does not go on with it. -/
theorem number_eq_done {parts : NumberParts} (valid : parts.Valid) {rest : List Char}
    (halts : Halts Char.isDigit rest) (ends : continuesNumber rest = false) :
    number (parts.text ++ rest) = .done parts.text.length parts.lexeme := by
  have noPoint : Halts (· == '.') rest := by
    intro c member
    simp only [continuesNumber, Option.mem_def.mp member, Option.any_some,
      Bool.or_eq_false_iff] at ends
    exact ends.1
  have noMark : Halts isExponentMark rest := by
    intro c member
    simp only [continuesNumber, Option.mem_def.mp member, Option.any_some,
      Bool.or_eq_false_iff] at ends
    simp only [isExponentMark, Bool.or_eq_false_iff, beq_eq_false_iff_ne]
    constructor <;> rintro rfl <;> exact absurd ends.2 (by decide)
  have haltsExponent : Halts Char.isDigit (parts.exponent ++ rest) :=
    halts_append (valid.exponent_halts _ (by decide) (by decide)) halts
  have signed := minus_eq_done (valid.isSign (parts.fraction ++ (parts.exponent ++ rest)))
  have whole :=
    wholePart_eq_done valid.whole (halts_append (isFraction_halts valid.fraction) haltsExponent)
  have fraction := fractionPart_eq_done valid.fraction haltsExponent
    (halts_append (valid.exponent_halts _ (by decide) (by decide)) noPoint)
  have exponent := exponentPart_eq_done valid.exponent halts noMark
  have split : parts.text ++ rest =
      parts.sign ++ (parts.whole ++ (parts.fraction ++ (parts.exponent ++ rest))) := by
    simp [NumberParts.text]
  rw [split]
  simp only [number, bind, Reading.andThen, signed, Reading.done, whole, fraction, exponent,
    Reading.behind, ends, Bool.false_eq_true, if_false, pure, NumberParts.lexeme,
    NumberParts.text]
  simp

/-- What is read as a number is one, and the text behind it does not go on with it. -/
theorem number_ok {text : List Char} {size : Nat} {lexeme : Lexeme}
    (read : number text = ⟨size, .ok lexeme⟩) :
    ∃ parts : NumberParts, parts.Valid ∧ lexeme = parts.lexeme ∧ size = parts.text.length ∧
      ∃ rest, text = parts.text ++ rest ∧ Halts Char.isDigit rest ∧
        continuesNumber rest = false := by
  unfold number at read
  cases signed : (minus text).outcome with
  | error fault => simp [bind, Reading.andThen, signed] at read
  | ok sign =>
  cases wholed : (wholePart sign.2).outcome with
  | error fault => simp [bind, Reading.andThen, Reading.behind, signed, wholed] at read
  | ok whole =>
  cases fractioned : (fractionPart whole.2).outcome with
  | error fault =>
      simp [bind, Reading.andThen, Reading.behind, signed, wholed, fractioned] at read
  | ok fraction =>
  cases exponented : (exponentPart fraction.2).outcome with
  | error fault =>
      simp [bind, Reading.andThen, Reading.behind, signed, wholed, fractioned, exponented] at read
  | ok exponent =>
  obtain ⟨isSign, splitSign, sizeSign⟩ :=
    minus_ok (show minus text = ⟨(minus text).size, .ok sign⟩ by rw [← signed])
  obtain ⟨isWhole, splitWhole, sizeWhole, haltsWhole⟩ := wholePart_ok
    (show wholePart sign.2 = ⟨(wholePart sign.2).size, .ok whole⟩ by rw [← wholed])
  obtain ⟨isFraction, splitFraction, sizeFraction, haltsFraction⟩ :=
    fractionPart_ok haltsWhole
      (show fractionPart whole.2 = ⟨(fractionPart whole.2).size, .ok fraction⟩ by
        rw [← fractioned])
  obtain ⟨isExponent, splitExponent, sizeExponent, halts⟩ := exponentPart_ok haltsFraction
    (show exponentPart fraction.2 = ⟨(exponentPart fraction.2).size, .ok exponent⟩ by
      rw [← exponented])
  simp only [bind, Reading.andThen, Reading.behind, signed, wholed, fractioned, exponented] at read
  split at read
  · simp [Reading.fail] at read
  · rename_i ends
    refine ⟨⟨sign.1, whole.1, fraction.1, exponent.1⟩,
      ⟨isSign.imp_right And.left, isWhole, isFraction, isExponent⟩, ?_, ?_, exponent.2, ?_, halts,
      by simpa using ends⟩
    · simp only [pure, Reading.done, Reading.mk.injEq, Except.ok.injEq] at read
      rw [← read.2]
      simp [NumberParts.lexeme, NumberParts.text]
    · simp only [pure, Reading.done, Reading.mk.injEq] at read
      simp only [NumberParts.text, List.length_append]
      omega
    · rw [splitSign, splitWhole, splitFraction, splitExponent]
      simp [NumberParts.text]

theorem exists_parts_of_isInt {text : String} (isInt : isInt text.toList = true) :
    ∃ parts : NumberParts, parts.Valid ∧ parts.text = text.toList ∧ parts.lexeme = .int text := by
  obtain ⟨sign, split, isSign⟩ := exists_sign text.toList
  have same : (⟨sign, dropMinus text.toList, [], []⟩ : NumberParts).text = text.toList := by
    simp only [NumberParts.text, List.append_nil]
    exact split.symm
  refine ⟨⟨sign, dropMinus text.toList, [], []⟩, ⟨isSign, isInt, rfl, rfl⟩, same, ?_⟩
  simp only [NumberParts.lexeme, List.isEmpty_nil, Bool.and_self, if_true, same,
    String.ofList_toList]

theorem exists_parts_of_isFloat {text : String} (isFloat : isFloat text.toList = true) :
    ∃ parts : NumberParts, parts.Valid ∧ parts.text = text.toList ∧
      parts.lexeme = .float text := by
  obtain ⟨sign, split, isSign⟩ := exists_sign text.toList
  simp only [Lexical.isFloat, Bool.and_eq_true, Bool.not_eq_true'] at isFloat
  obtain ⟨⟨⟨isWhole, isBehind⟩, isFraction⟩, isExponent⟩ := isFloat
  generalize dropMinus text.toList = unsigned at *
  generalize behind : unsigned.dropWhile Char.isDigit = left at *
  have splitLeft : left.takeWhile (fun c => !isExponentMark c) ++
      left.dropWhile (fun c => !isExponentMark c) = left := List.takeWhile_append_dropWhile
  have same : (⟨sign, unsigned.takeWhile Char.isDigit,
      left.takeWhile fun c => !isExponentMark c, left.dropWhile fun c => !isExponentMark c⟩ :
      NumberParts).text = text.toList := by
    simp only [NumberParts.text]
    rw [splitLeft, ← behind, List.takeWhile_append_dropWhile]
    exact split.symm
  refine ⟨_, ⟨isSign, isWhole, isFraction, isExponent⟩, same, ?_⟩
  have several : ((left.takeWhile fun c => !isExponentMark c).isEmpty &&
      (left.dropWhile fun c => !isExponentMark c).isEmpty) = false := by
    refine Bool.eq_false_iff.mpr fun none => ?_
    simp only [Bool.and_eq_true, List.isEmpty_iff] at none
    rw [none.1, none.2] at splitLeft
    rw [← splitLeft] at isBehind
    exact absurd isBehind (by decide)
  simp only [NumberParts.lexeme, several, Bool.false_eq_true, if_false, same,
    String.ofList_toList]

end GraphQL.Lexical

import GraphQL.Proofs.Lexical.Quoted

/-!
The grammar of escapes in a quoted string. It says which texts may stand behind a backslash and
which character each of them names, without reading anything; decoding accepts exactly these
texts and gives exactly their characters.
-/

namespace GraphQL

namespace Hex

def lowerDigits : List Char :=
  ['0', '1', '2', '3', '4', '5', '6', '7', '8', '9', 'a', 'b', 'c', 'd', 'e', 'f']

def upperDigits : List Char :=
  ['0', '1', '2', '3', '4', '5', '6', '7', '8', '9', 'A', 'B', 'C', 'D', 'E', 'F']

/-- Each digit stands at the place of its value. -/
def IsDigit (c : Char) (value : Nat) : Prop :=
  lowerDigits[value]? = some c ∨ upperDigits[value]? = some c

instance (c : Char) (value : Nat) : Decidable (IsDigit c value) :=
  inferInstanceAs (Decidable (_ ∨ _))

inductive Numeral : List Char → Nat → Prop
  | nil : Numeral [] 0
  | snoc {digits : List Char} {number value : Nat} {c : Char} (front : Numeral digits number)
      (last : IsDigit c value) : Numeral (digits ++ [c]) (number * 16 + value)

theorem IsDigit.lt {c : Char} {value : Nat} (isDigit : IsDigit c value) : value < 16 := by
  rcases isDigit with found | found
  · exact (List.getElem?_eq_some_iff.mp found).1
  · exact (List.getElem?_eq_some_iff.mp found).1

theorem value_of_isDigit {c : Char} {value : Nat} (isDigit : IsDigit c value) :
    value? c = some value := by
  have lower : ∀ place ∈ lowerDigits.zipIdx, value? place.1 = some place.2 := by decide
  have upper : ∀ place ∈ upperDigits.zipIdx, value? place.1 = some place.2 := by decide
  rcases isDigit with found | found
  · exact lower (c, value) (List.mk_mem_zipIdx_iff_getElem?.mpr found)
  · exact upper (c, value) (List.mk_mem_zipIdx_iff_getElem?.mpr found)

theorem toNat_lt_of_value {c : Char} {value : Nat} (known : value? c = some value) :
    c.toNat < 103 := by
  have nine : '9'.val.toNat = 57 := rfl
  have small : 'f'.val.toNat = 102 := rfl
  have capital : 'F'.val.toNat = 70 := rfl
  have code : c.toNat = c.val.toNat := rfl
  simp only [value?, Char.isDigit, Bool.and_eq_true, decide_eq_true_eq, Char.le_def,
    UInt32.le_iff_toNat_le, ge_iff_le] at known
  split at known
  · omega
  split at known
  · omega
  split at known
  · omega
  · cases known

theorem isDigit_of_value {c : Char} {value : Nat} (known : value? c = some value) :
    IsDigit c value := by
  have each : ∀ code : Fin 103, ∀ value ∈ value? (Char.ofNat code.val),
      IsDigit (Char.ofNat code.val) value := by
    decide
  have found := each ⟨c.toNat, toNat_lt_of_value known⟩ value
  rw [Char.ofNat_toNat] at found
  exact found known

theorem Numeral.last_of_length {digits : List Char} {number count : Nat}
    (numeral : Numeral digits number) (length : digits.length = count + 1) :
    ∃ front c lead value, digits = front ++ [c] ∧ front.length = count ∧ Numeral front lead ∧
      value? c = some value ∧ number = lead * 16 + value := by
  cases numeral with
  | nil => cases length
  | @snoc front lead value c numeral last =>
      rw [List.length_append] at length
      exact ⟨front, c, lead, value, rfl, Nat.succ.inj length, numeral, value_of_isDigit last, rfl⟩

theorem Numeral.lt {digits : List Char} {number : Nat} (numeral : Numeral digits number) :
    number < Nat.pow 16 digits.length := by
  induction numeral with
  | nil => exact Nat.one_pos
  | @snoc digits number value c _ last ih =>
      have small := last.lt
      have longer : Nat.pow 16 (digits.length + 1) = Nat.pow 16 digits.length * 16 := rfl
      rw [List.length_append, List.length_singleton, longer]
      omega

theorem Numeral.value_of_mem {digits : List Char} {number : Nat} (numeral : Numeral digits number)
    {c : Char} (member : c ∈ digits) : ∃ value, value? c = some value := by
  induction numeral with
  | nil => cases member
  | snoc _ last ih =>
      rcases List.mem_append.mp member with before | here
      · exact ih before
      · obtain rfl := List.mem_singleton.mp here
        exact ⟨_, value_of_isDigit last⟩

theorem ofFour_of_numeral {digits : List Char} {number : Nat} (numeral : Numeral digits number)
    (length : digits.length = 4) :
    ∃ a b c d, digits = [a, b, c, d] ∧ ofFour? a b c d = some number := by
  obtain ⟨three, d, _, fourth, rfl, threeLength, threeNumeral, isFourth, rfl⟩ :=
    numeral.last_of_length length
  obtain ⟨two, c, _, third, rfl, twoLength, twoNumeral, isThird, rfl⟩ :=
    threeNumeral.last_of_length threeLength
  obtain ⟨one, b, _, second, rfl, oneLength, oneNumeral, isSecond, rfl⟩ :=
    twoNumeral.last_of_length twoLength
  obtain ⟨none, a, nothing, first, rfl, noneLength, noneNumeral, isFirst, rfl⟩ :=
    oneNumeral.last_of_length oneLength
  obtain rfl := List.length_eq_zero_iff.mp noneLength
  have zero : nothing = 0 := by simpa using noneNumeral.lt
  refine ⟨a, b, c, d, rfl, ?_⟩
  simp only [ofFour?, isFirst, isSecond, isThird, isFourth, Option.bind_eq_bind, Option.bind_some,
    Option.pure_def, Option.some.injEq]
  omega

theorem numeral_of_ofFour {a b c d : Char} {number : Nat}
    (known : ofFour? a b c d = some number) : Numeral [a, b, c, d] number := by
  simp only [ofFour?, Option.bind_eq_bind, Option.bind_eq_some_iff, Option.pure_def,
    Option.some.injEq] at known
  obtain ⟨first, isFirst, second, isSecond, third, isThird, fourth, isFourth, rfl⟩ := known
  have numeral :
      Numeral [a, b, c, d] ((((0 * 16 + first) * 16 + second) * 16 + third) * 16 + fourth) :=
    (((Numeral.nil.snoc (isDigit_of_value isFirst)).snoc (isDigit_of_value isSecond)).snoc
      (isDigit_of_value isThird)).snoc (isDigit_of_value isFourth)
  have same : (((0 * 16 + first) * 16 + second) * 16 + third) * 16 + fourth =
      first * 4096 + second * 256 + third * 16 + fourth := by
    omega
  rwa [same] at numeral

end Hex

namespace Lexical

def shortEscapes : List (Char × Char) :=
  [('"', '"'), ('\\', '\\'), ('/', '/'), ('b', '\x08'), ('f', '\x0c'), ('n', '\n'), ('r', '\r'),
    ('t', '\t')]

/-- What may stand behind a backslash, and the character that it names there. No number of a
character is that of a surrogate, so `four` leaves these to the pairs. -/
inductive Escapes : List Char → Char → Prop
  | short {mark c : Char} (known : (mark, c) ∈ shortEscapes) : Escapes [mark] c
  | four {digits : List Char} {c : Char} (length : digits.length = 4)
      (numeral : Hex.Numeral digits c.toNat) : Escapes ('u' :: digits) c
  | pair {first second : List Char} {leading trailing : Nat} {c : Char}
      (firstLength : first.length = 4) (secondLength : second.length = 4)
      (firstNumeral : Hex.Numeral first leading) (secondNumeral : Hex.Numeral second trailing)
      (leads : 0xD800 ≤ leading ∧ leading ≤ 0xDBFF)
      (trails : 0xDC00 ≤ trailing ∧ trailing ≤ 0xDFFF)
      (names : c.toNat = 0x10000 + (leading - 0xD800) * 0x400 + (trailing - 0xDC00)) :
      Escapes ('u' :: (first ++ '\\' :: 'u' :: second)) c
  | braced {digits : List Char} {c : Char} (nonempty : 1 ≤ digits.length) (few : digits.length ≤ 8)
      (numeral : Hex.Numeral digits c.toNat) : Escapes ('u' :: '{' :: (digits ++ ['}'])) c

def escapeMarks : List Char := ['"', '\\', '/', 'b', 'f', 'n', 'r', 't', 'u', '{', '}']

theorem Escapes.mark_or_digit {word : List Char} {c d : Char} (escapes : Escapes word c)
    (member : d ∈ word) : d ∈ escapeMarks ∨ ∃ value, Hex.value? d = some value := by
  cases escapes with
  | @short mark c known =>
      have marks : ∀ entry ∈ shortEscapes, entry.1 ∈ escapeMarks := by
        simp [shortEscapes, escapeMarks]
      obtain rfl := List.mem_singleton.mp member
      exact .inl (marks _ known)
  | four _ numeral =>
      rcases List.mem_cons.mp member with rfl | digit
      · exact .inl (by simp [escapeMarks])
      · exact .inr (numeral.value_of_mem digit)
  | pair _ _ first second =>
      simp only [List.mem_cons, List.mem_append] at member
      rcases member with rfl | digit | rfl | rfl | digit
      · exact .inl (by simp [escapeMarks])
      · exact .inr (first.value_of_mem digit)
      · exact .inl (by simp [escapeMarks])
      · exact .inl (by simp [escapeMarks])
      · exact .inr (second.value_of_mem digit)
  | braced _ _ numeral =>
      simp only [List.mem_cons, List.mem_append, List.not_mem_nil, or_false] at member
      rcases member with rfl | rfl | digit | rfl
      · exact .inl (by simp [escapeMarks])
      · exact .inl (by simp [escapeMarks])
      · exact .inr (numeral.value_of_mem digit)
      · exact .inl (by simp [escapeMarks])

theorem scalar_toNat (c : Char) : scalar? c.toNat = some c := by
  have valid : c.toNat.isValidChar := c.valid
  simp [scalar?, valid]

theorem toNat_of_scalar {code : Nat} {c : Char} (known : scalar? code = some c) :
    c.toNat = code := by
  unfold scalar? at known
  split at known
  · rename_i valid
    obtain rfl := Option.some.inj known
    have direct : Char.ofNat code = Char.ofNatAux code valid := dif_pos valid
    rw [direct]
    rfl
  · cases known

theorem scalar_surrogate {code : Nat} (leads : 0xD800 ≤ code ∧ code ≤ 0xDBFF) :
    scalar? code = none := by
  have invalid : ¬code.isValidChar := by
    rintro (low | high) <;> omega
  simp [scalar?, invalid]

/-! From the grammar to what is read. -/

theorem escape_of_short {mark c : Char} (known : (mark, c) ∈ shortEscapes) (rest : List Char) :
    escape (mark :: rest) = .ok (c, 1) := by
  simp only [shortEscapes, List.mem_cons, Prod.mk.injEq, List.not_mem_nil, or_false] at known
  rcases known with ⟨rfl, rfl⟩ | ⟨rfl, rfl⟩ | ⟨rfl, rfl⟩ | ⟨rfl, rfl⟩ | ⟨rfl, rfl⟩ | ⟨rfl, rfl⟩ |
    ⟨rfl, rfl⟩ | ⟨rfl, rfl⟩ <;> rfl

theorem fourDigits_of_numeral {digits : List Char} {number : Nat}
    (numeral : Hex.Numeral digits number) (length : digits.length = 4) (rest : List Char) :
    fourDigits? (digits ++ rest) = some number := by
  obtain ⟨a, b, c, d, rfl, known⟩ := Hex.ofFour_of_numeral numeral length
  exact known

theorem isLeadingSurrogate_iff {code : Nat} :
    isLeadingSurrogate code = true ↔ 0xD800 ≤ code ∧ code ≤ 0xDBFF := by
  rw [isLeadingSurrogate, Bool.and_eq_true, decide_eq_true_eq, decide_eq_true_eq]

theorem isTrailingSurrogate_iff {code : Nat} :
    isTrailingSurrogate code = true ↔ 0xDC00 ≤ code ∧ code ≤ 0xDFFF := by
  rw [isTrailingSurrogate, Bool.and_eq_true, decide_eq_true_eq, decide_eq_true_eq]

theorem fourDigitEscape_leading {text : List Char} {code : Nat}
    (digits : fourDigits? text = some code) (leads : 0xD800 ≤ code ∧ code ≤ 0xDBFF) :
    fourDigitEscape? text =
      ((trailingHalf? (text.drop 4)).bind fun low =>
        scalar? (0x10000 + (code - 0xD800) * 0x400 + (low - 0xDC00))).map (·, 11) := by
  rw [fourDigitEscape?, digits, Option.bind_eq_bind, Option.bind_some, scalar_surrogate leads]
  dsimp only
  rw [if_pos (isLeadingSurrogate_iff.mpr leads), Option.bind_eq_bind]
  cases trailingHalf? (text.drop 4) with
  | none => rfl
  | some low =>
      rw [Option.bind_some, Option.bind_some]
      cases scalar? (0x10000 + (code - 0xD800) * 0x400 + (low - 0xDC00)) with
      | none => rfl
      | some c => rfl

theorem fourDigitEscape_alone {text : List Char} {code : Nat}
    (digits : fourDigits? text = some code) (alone : ¬isLeadingSurrogate code = true) :
    fourDigitEscape? text = (scalar? code).map (·, 5) := by
  rw [fourDigitEscape?, digits, Option.bind_eq_bind, Option.bind_some]
  cases scalar? code with
  | none => exact if_neg alone
  | some c => rfl

theorem fourDigitEscape_of_pair {first second : List Char} {leading trailing : Nat} {c : Char}
    (firstLength : first.length = 4) (secondLength : second.length = 4)
    (firstNumeral : Hex.Numeral first leading) (secondNumeral : Hex.Numeral second trailing)
    (leads : 0xD800 ≤ leading ∧ leading ≤ 0xDBFF) (trails : 0xDC00 ≤ trailing ∧ trailing ≤ 0xDFFF)
    (names : c.toNat = 0x10000 + (leading - 0xD800) * 0x400 + (trailing - 0xDC00))
    (rest : List Char) :
    fourDigitEscape? (first ++ ('\\' :: 'u' :: (second ++ rest))) = some (c, 11) := by
  have half : trailingHalf? ('\\' :: 'u' :: (second ++ rest)) = some trailing := by
    rw [trailingHalf?, fourDigits_of_numeral secondNumeral secondLength]
    exact Option.filter_eq_some_iff.mpr ⟨rfl, isTrailingSurrogate_iff.mpr trails⟩
  have behind : (first ++ ('\\' :: 'u' :: (second ++ rest))).drop 4 =
      '\\' :: 'u' :: (second ++ rest) := by
    rw [← firstLength, List.drop_left]
  rw [fourDigitEscape_leading (fourDigits_of_numeral firstNumeral firstLength _) leads, behind,
    half, Option.bind_some, ← names, scalar_toNat, Option.map_some]

theorem bracedEscape_of_numeral {digits : List Char} {number : Nat}
    (numeral : Hex.Numeral digits number) (few : digits.length ≤ 8)
    (small : number ≤ maxBracedCode) (rest : List Char) :
    bracedEscape 0 3 9 (digits ++ rest) =
      bracedEscape number (digits.length + 3) (9 - digits.length) rest := by
  induction numeral generalizing rest with
  | nil => rfl
  | @snoc digits number value c front last ih =>
      rw [List.length_append, List.length_singleton] at few ⊢
      have known := Hex.value_of_isDigit last
      have noBrace : c ≠ '}' := by
        rintro rfl
        exact absurd (Option.isSome_of_eq_some known) (by decide)
      obtain ⟨budget, same⟩ : ∃ budget, 9 - digits.length = budget + 1 :=
        ⟨8 - digits.length, by omega⟩
      have left : 9 - (digits.length + 1) = budget := by omega
      rw [List.append_assoc, List.singleton_append, ih (by omega) (by omega), same, left,
        bracedEscape, if_neg noBrace, known]
      simp only [Nat.not_lt.mpr small, if_false]

theorem escape_of_braced {digits : List Char} {c : Char} (nonempty : 1 ≤ digits.length)
    (few : digits.length ≤ 8) (numeral : Hex.Numeral digits c.toNat) (rest : List Char) :
    escape ('u' :: '{' :: (digits ++ '}' :: rest)) = .ok (c, digits.length + 3) := by
  have small : c.toNat ≤ maxBracedCode := by
    have valid : c.toNat.isValidChar := c.valid
    rcases valid with low | high
    · exact Nat.le_trans (Nat.le_of_lt low) (by decide)
    · exact Nat.le_trans (Nat.le_of_lt high.2) (by decide)
  obtain ⟨budget, same⟩ : ∃ budget, 9 - digits.length = budget + 1 :=
    ⟨8 - digits.length, by omega⟩
  have enough : ¬digits.length + 3 + 1 < 5 := by omega
  simp only [escape, bracedEscape_of_numeral numeral few small, same, bracedEscape, if_true,
    enough, if_false, scalar_toNat]

/-- An escape is read where it stands, whatever follows it. -/
theorem Escapes.escape_eq {word : List Char} {c : Char} (escapes : Escapes word c)
    (rest : List Char) : escape (word ++ rest) = .ok (c, word.length) := by
  cases escapes with
  | short known => exact escape_of_short known rest
  | @four digits c length numeral =>
      rw [List.cons_append, List.length_cons, length]
      apply escape_unbraced
      simp [fourDigitEscape?, fourDigits_of_numeral numeral length, scalar_toNat]
  | @pair first second _ _ _ firstLength secondLength firstNumeral secondNumeral leads trails
      names =>
      have length : ('u' :: (first ++ '\\' :: 'u' :: second)).length = 11 := by
        simp [firstLength, secondLength]
      rw [length, List.cons_append, List.append_assoc]
      apply escape_unbraced
      exact fourDigitEscape_of_pair firstLength secondLength firstNumeral secondNumeral leads trails
        names rest
  | @braced digits c nonempty few numeral =>
      have length : ('u' :: '{' :: (digits ++ ['}'])).length = digits.length + 3 := by simp
      rw [length, List.cons_append, List.cons_append, List.append_assoc]
      exact escape_of_braced nonempty few numeral rest

/-! From what is read to the grammar. -/

theorem numeral_of_fourDigits {text : List Char} {number : Nat}
    (known : fourDigits? text = some number) :
    ∃ digits rest, text = digits ++ rest ∧ digits.length = 4 ∧ Hex.Numeral digits number := by
  unfold fourDigits? at known
  split at known
  · rename_i a b c d rest
    exact ⟨[a, b, c, d], rest, rfl, rfl, Hex.numeral_of_ofFour known⟩
  · cases known

theorem numeral_of_trailingHalf {text : List Char} {number : Nat}
    (known : trailingHalf? text = some number) :
    ∃ digits rest, text = '\\' :: 'u' :: (digits ++ rest) ∧ digits.length = 4 ∧
      Hex.Numeral digits number ∧ 0xDC00 ≤ number ∧ number ≤ 0xDFFF := by
  unfold trailingHalf? at known
  split at known
  · rename_i rest
    obtain ⟨digits, isTrailing⟩ := Option.filter_eq_some_iff.mp known
    obtain ⟨word, left, rfl, length, numeral⟩ := numeral_of_fourDigits digits
    exact ⟨word, left, rfl, length, numeral, isTrailingSurrogate_iff.mp isTrailing⟩
  · cases known

theorem escapes_of_fourDigits {text : List Char} {found : Escape}
    (known : fourDigitEscape? text = some found) :
    ∃ word rest, text = word ++ rest ∧ found.2 = word.length + 1 ∧
      Escapes ('u' :: word) found.1 := by
  cases digits : fourDigits? text with
  | none =>
      rw [fourDigitEscape?, digits] at known
      cases known
  | some code =>
      obtain ⟨word, rest, rfl, length, numeral⟩ := numeral_of_fourDigits digits
      by_cases leads : isLeadingSurrogate code = true
      · have leads := isLeadingSurrogate_iff.mp leads
        have behind : (word ++ rest).drop 4 = rest := by rw [← length, List.drop_left]
        rw [fourDigitEscape_leading digits leads, behind] at known
        obtain ⟨c, combined, rfl⟩ := Option.map_eq_some_iff.mp known
        obtain ⟨low, half, names⟩ := Option.bind_eq_some_iff.mp combined
        obtain ⟨second, left, rfl, secondLength, secondNumeral, trails⟩ :=
          numeral_of_trailingHalf half
        refine ⟨word ++ '\\' :: 'u' :: second, left, by simp, by simp [length, secondLength], ?_⟩
        exact .pair length secondLength numeral secondNumeral leads trails (toNat_of_scalar names)
      · rw [fourDigitEscape_alone digits leads] at known
        obtain ⟨c, names, rfl⟩ := Option.map_eq_some_iff.mp known
        rw [← toNat_of_scalar names] at numeral
        exact ⟨word, rest, rfl, by rw [length], .four length numeral⟩

theorem numeral_of_bracedEscape {code size budget : Nat} {front text : List Char} {found : Escape}
    (numeral : Hex.Numeral front code) (length : size = front.length + 3)
    (read : bracedEscape code size budget text = .ok found) :
    ∃ more rest, text = more ++ '}' :: rest ∧ Hex.Numeral (front ++ more) found.1.toNat ∧
      found.2 = (front ++ more).length + 3 ∧ 1 ≤ (front ++ more).length ∧ more.length < budget := by
  fun_induction bracedEscape code size budget text generalizing front with
  | case4 code size budget rest enough c isScalar =>
      cases read
      rw [← toNat_of_scalar isScalar] at numeral
      refine ⟨[], rest, rfl, ?_⟩
      rw [List.append_nil]
      exact ⟨numeral, length, by omega, Nat.succ_pos budget⟩
  | case8 code size budget c rest opened value known small ih =>
      have longer : size + 1 = (front ++ [c]).length + 3 := by
        rw [List.length_append, List.length_singleton, length]
      obtain ⟨more, left, rfl, whole, size, some', few⟩ :=
        ih (numeral.snoc (Hex.isDigit_of_value known)) longer read
      rw [List.append_assoc, List.singleton_append] at whole size some'
      exact ⟨c :: more, left, rfl, whole, size, some', Nat.succ_lt_succ few⟩
  | case1 | case2 | case3 | case5 | case6 | case7 => cases read

/-- Whatever is decoded was an escape of the grammar. -/
theorem escapes_of_escape {text : List Char} {found : Escape} (read : escape text = .ok found) :
    ∃ word rest, text = word ++ rest ∧ found.2 = word.length ∧ Escapes word found.1 := by
  revert read
  fun_cases escape text <;> intro read
  case case10 rest inner braced =>
    cases read
    obtain ⟨digits, left, rfl, numeral, size, some', few⟩ :=
      numeral_of_bracedEscape .nil rfl braced
    refine ⟨'u' :: '{' :: (digits ++ ['}']), left, by simp, by simpa using size, ?_⟩
    exact .braced some' (Nat.le_of_lt_succ few) numeral
  case case12 rest noBrace inner four =>
    cases read
    obtain ⟨word, left, rfl, size, escapes⟩ := escapes_of_fourDigits four
    exact ⟨'u' :: word, left, rfl, size, escapes⟩
  case case1 | case11 | case13 | case14 => cases read
  all_goals
    cases read
    exact ⟨[_], _, rfl, rfl, .short (by decide)⟩

theorem kind_of_escape {text : List Char} {fault : Fault} (failed : escape text = .error fault) :
    fault.kind = .invalidString ∨ fault.kind = .unterminatedString := by
  revert failed
  fun_cases escape text <;> intro failed
  case case1 =>
    cases failed
    exact .inr rfl
  case case11 | case13 | case14 =>
    cases failed
    exact .inl rfl
  all_goals cases failed

end Lexical

end GraphQL

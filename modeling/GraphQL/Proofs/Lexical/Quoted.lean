import GraphQL.Lexical.Text
import GraphQL.StringLiteral

/-!
Reading the body of a quoted string by one character or one escape at a time, and the four digits
that a number is written with.
-/

namespace GraphQL

namespace Hex

theorem value_digit {value : Nat} (small : value < 16) : value? (digit value) = some value := by
  have all : ∀ value : Fin 16, value? (digit value) = some value.val := by decide
  exact all ⟨value, small⟩

theorem ofFour_four {value : Nat} (small : value < 0x10000) :
    ofFour? (digit (value / 4096 % 16)) (digit (value / 256 % 16)) (digit (value / 16 % 16))
      (digit (value % 16)) = some value := by
  have bound : ∀ n : Nat, n % 16 < 16 := fun n => Nat.mod_lt n (by decide)
  simp only [ofFour?, value_digit (bound _), bind, Option.bind, pure]
  congr 1
  omega

end Hex

namespace Lexical

@[simp] theorem Reading.behind_behind (first second : Nat) (reading : Reading α) :
    (reading.behind second).behind first = reading.behind (first + second) := by
  simp [Reading.behind, Nat.add_assoc]

@[simp] theorem Reading.map_behind (size : Nat) (change : α → β) (reading : Reading α) :
    (reading.behind size).map change = (reading.map change).behind size := rfl

@[simp] theorem Reading.map_id (reading : Reading α) :
    reading.map (fun value => value) = reading := by
  obtain ⟨size, outcome⟩ := reading
  cases outcome <;> rfl

theorem Reading.map_map (reading : Reading α) (first : α → β) (second : β → γ) :
    (reading.map first).map second = reading.map fun value => second (first value) := by
  obtain ⟨size, outcome⟩ := reading
  cases outcome <;> rfl

@[simp] theorem Reading.map_done (size : Nat) (change : α → β) (value : α) :
    (Reading.done size value).map change = .done size (change value) := rfl

@[simp] theorem Reading.behind_done (first second : Nat) (value : α) :
    (Reading.done second value).behind first = .done (first + second) value := rfl

theorem Reading.outcome_map {reading : Reading α} {change : α → β} {size : Nat} {value : β}
    (read : ((reading.map change).behind size).outcome = .ok value) :
    ∃ inner, reading.outcome = .ok inner ∧ change inner = value := by
  simp only [Reading.behind, Reading.map] at read
  cases outcome : reading.outcome with
  | error fault =>
      rw [outcome] at read
      cases read
  | ok inner =>
      rw [outcome] at read
      exact ⟨inner, rfl, Except.ok.inj read⟩

theorem Reading.outcome_map_error {reading : Reading α} {change : α → β} {size : Nat}
    {fault : Fault} (failed : ((reading.map change).behind size).outcome = .error fault) :
    reading.outcome = .error fault := by
  simp only [Reading.behind, Reading.map] at failed
  cases outcome : reading.outcome with
  | ok value =>
      rw [outcome] at failed
      cases failed
  | error other =>
      rw [outcome] at failed
      exact congrArg Except.error (Except.error.inj failed)

theorem quotedBody_skip (word rest : List Char) :
    quotedBody word.length (word ++ rest) = (quotedBody 0 rest).behind word.length := by
  induction word with
  | nil => simp [Reading.behind]
  | cons c word ih =>
      simp only [List.length_cons, List.cons_append, quotedBody, ih, Reading.behind_behind]
      rw [Nat.add_comm]

theorem quotedBody_escape {c : Char} (word : List Char) {rest : List Char}
    (decodes : escape (word ++ rest) = .ok (c, word.length)) :
    quotedBody 0 ('\\' :: (word ++ rest)) =
      ((quotedBody 0 rest).map (c :: ·)).behind (word.length + 1) := by
  have unquoted : ¬('\\' = '"') := by decide
  have sameLine : isLineBreak '\\' = false := by decide
  simp only [quotedBody, unquoted, if_false, sameLine, Bool.false_eq_true, if_true, decodes]
  rw [quotedBody_skip]
  simp [Nat.add_comm]

theorem quotedBody_plain {c : Char} {rest : List Char} (unquoted : c ≠ '"') (unescaped : c ≠ '\\')
    (sameLine : isLineBreak c = false) (allowed : isForbidden c = false) :
    quotedBody 0 (c :: rest) = ((quotedBody 0 rest).map (c :: ·)).behind 1 := by
  simp [quotedBody, unquoted, unescaped, sameLine, allowed]

theorem escape_unbraced {text : List Char} {found : Escape}
    (decodes : fourDigitEscape? text = some found) : escape ('u' :: text) = .ok found := by
  have noBrace : ∀ behind, text ≠ '{' :: behind := by
    rintro behind rfl
    have noDigits : fourDigits? ('{' :: behind) = none := by
      unfold fourDigits?
      split
      · rename_i same
        cases same
        rfl
      · rfl
    rw [fourDigitEscape?, noDigits] at decodes
    cases decodes
  simp only [escape, decodes]

end Lexical

end GraphQL

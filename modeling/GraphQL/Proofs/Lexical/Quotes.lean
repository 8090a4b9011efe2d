import GraphQL.Proofs.Lexical.Escape

/-!
The grammar of quoted strings. Between the quotes stand plain characters and escapes, one for
each character of the value. The body of a string is read exactly if it is of this form, and its
value is the one that the grammar gives. What is written for a value is of this form.
-/

namespace GraphQL.Lexical

/-- What may stand between the quotes of a string, and the value that it writes. -/
inductive Quotes : List Char → List Char → Prop
  | nil : Quotes [] []
  | plain {c : Char} {inner value : List Char} (unquoted : c ≠ '"') (unescaped : c ≠ '\\')
      (allowed : 0x20 ≤ c.toNat ∨ c = '\t') (behind : Quotes inner value) :
      Quotes (c :: inner) (c :: value)
  | escape {word inner value : List Char} {c : Char} (escapes : Escapes word c)
      (behind : Quotes inner value) : Quotes ('\\' :: (word ++ inner)) (c :: value)

theorem allowed_iff (c : Char) :
    0x20 ≤ c.toNat ∨ c = '\t' ↔ isLineBreak c = false ∧ isForbidden c = false := by
  constructor
  · rintro (large | rfl)
    · have sameLine : isLineBreak c = false := by
        simp only [isLineBreak, Bool.or_eq_false_iff, beq_eq_false_iff_ne]
        constructor <;> rintro rfl <;> exact absurd large (by decide)
      exact ⟨sameLine, by simp [isForbidden, Nat.not_lt.mpr large]⟩
    · decide
  · rintro ⟨sameLine, allowed⟩
    by_cases large : 0x20 ≤ c.toNat
    · exact .inl large
    · have small := Nat.lt_of_not_le large
      exact .inr (by simpa [isForbidden, sameLine, small] using allowed)

theorem Quotes.quotedBody_append {inner value : List Char} (quotes : Quotes inner value)
    (text : List Char) :
    quotedBody 0 (inner ++ text) =
      ((quotedBody 0 text).map (value ++ ·)).behind inner.length := by
  induction quotes with
  | nil => simp [Reading.behind]
  | plain unquoted unescaped allowed _ ih =>
      obtain ⟨sameLine, allowed⟩ := (allowed_iff _).mp allowed
      rw [List.cons_append, quotedBody_plain unquoted unescaped sameLine allowed, ih,
        Reading.map_behind, Reading.map_map, Reading.behind_behind, List.length_cons, Nat.add_comm]
      rfl
  | @escape word inner value c escapes _ ih =>
      rw [List.cons_append, List.append_assoc, quotedBody_escape word (escapes.escape_eq _), ih,
        Reading.map_behind, Reading.map_map, Reading.behind_behind, List.length_cons,
        List.length_append, Nat.add_right_comm]
      rfl

theorem Quotes.quotedBody_eq {inner value : List Char} (quotes : Quotes inner value)
    (rest : List Char) :
    quotedBody 0 (inner ++ '"' :: rest) = .done (inner.length + 1) value := by
  have closed : quotedBody 0 ('"' :: rest) = .done 1 [] := by simp [quotedBody]
  rw [quotes.quotedBody_append, closed, Reading.map_done, Reading.behind_done, List.append_nil]

theorem quotes_writeChar (c : Char) {inner value : List Char} (behind : Quotes inner value) :
    Quotes (StringLiteral.writeChar c ++ inner) (c :: value) := by
  fun_cases StringLiteral.writeChar c
  case case8 control =>
    have small : c.toNat < 0x10000 := by
      simp only [StringLiteral.isControl, Bool.or_eq_true, Bool.and_eq_true,
        decide_eq_true_eq] at control
      omega
    have numeral : Hex.Numeral (Hex.four c.toNat) c.toNat :=
      Hex.numeral_of_ofFour (Hex.ofFour_four small)
    exact .escape (.four rfl numeral) behind
  case case9 quote slash _ _ _ _ _ control =>
    have large : 0x20 ≤ c.toNat := by
      simp only [StringLiteral.isControl, Bool.or_eq_true, decide_eq_true_eq, not_or] at control
      omega
    exact .plain quote slash (.inl large) behind
  all_goals
    rename_i same
    subst same
    exact .escape (.short (by decide)) behind

/-- Whatever the value, what is written for it lies between quotes. -/
theorem quotes_write (value : List Char) :
    Quotes (value.flatMap StringLiteral.writeChar) value := by
  induction value with
  | nil => exact .nil
  | cons c value ih =>
      rw [List.flatMap_cons]
      exact quotes_writeChar c ih

/-- What is read was derived by the grammar. The skipped characters belong to an escape in front
of it. -/
theorem quotes_of_quotedBody {skip : Nat} {text value : List Char}
    (read : (quotedBody skip text).outcome = .ok value) :
    ∃ inner rest, text.drop skip = inner ++ '"' :: rest ∧ Quotes inner value := by
  fun_induction quotedBody skip text generalizing value with
  | case1 => cases read
  | case2 skip c rest ih => exact ih read
  | case3 rest =>
      cases read
      exact ⟨[], rest, rfl, .nil⟩
  | case4 => cases read
  | case5 rest found size decoded quote breaks ih =>
      obtain ⟨tail, body, rfl⟩ := Reading.outcome_map read
      obtain ⟨inner, left, same, quotes⟩ := ih body
      obtain ⟨word, behind, rfl, length, escapes⟩ := escapes_of_escape decoded
      obtain rfl : size = word.length := length
      rw [List.drop_left] at same
      refine ⟨'\\' :: (word ++ inner), left, ?_, .escape escapes quotes⟩
      rw [List.drop_zero, same, List.cons_append, List.append_assoc]
  | case6 => cases read
  | case7 => cases read
  | case8 c rest quote breaks slash allowed ih =>
      obtain ⟨tail, body, rfl⟩ := Reading.outcome_map read
      obtain ⟨inner, left, same, quotes⟩ := ih body
      rw [List.drop_zero] at same
      refine ⟨c :: inner, left, by rw [same]; rfl, .plain quote slash ?_ quotes⟩
      exact (allowed_iff c).mpr ⟨by simpa using breaks, by simpa using allowed⟩

theorem kind_of_quotedBody {skip : Nat} {text : List Char} {fault : Fault}
    (failed : (quotedBody skip text).outcome = .error fault) :
    fault.kind = .invalidString ∨ fault.kind = .unterminatedString := by
  fun_induction quotedBody skip text with
  | case1 =>
      cases failed
      exact .inr rfl
  | case2 skip c rest ih => exact ih failed
  | case3 => cases failed
  | case4 =>
      cases failed
      exact .inr rfl
  | case5 rest found size decoded quote breaks ih => exact ih (Reading.outcome_map_error failed)
  | case6 rest fault' decoded quote breaks =>
      cases failed
      exact kind_of_escape decoded
  | case7 =>
      cases failed
      exact .inl rfl
  | case8 c rest quote breaks slash allowed ih => exact ih (Reading.outcome_map_error failed)

end GraphQL.Lexical

import GraphQL.Proofs.Lexical.Slice

/-!
Control characters. Of all lexemes only comments take any, but for tabs and the breaks of lines.
-/

namespace GraphQL.Lexical

open BlockString (delimiter)

def Clean (text : List Char) : Prop := ∀ c ∈ text, isForbidden c = false

instance (text : List Char) : Decidable (Clean text) :=
  List.decidableBAll (fun c => isForbidden c = false) text

theorem clean_nil : Clean [] := by simp [Clean]

theorem clean_cons {c : Char} {text : List Char} :
    Clean (c :: text) ↔ isForbidden c = false ∧ Clean text := List.forall_mem_cons

theorem clean_append {left right : List Char} :
    Clean (left ++ right) ↔ Clean left ∧ Clean right := List.forall_mem_append

theorem allowed_of {p : Char → Bool}
    (controls : ∀ code : Fin 0x20, p (Char.ofNat code) = true →
      isForbidden (Char.ofNat code) = false) {c : Char} (holds : p c = true) :
    isForbidden c = false := by
  by_cases small : c.toNat < 0x20
  · have control := controls ⟨c.toNat, small⟩
    rw [Char.ofNat_toNat] at control
    exact control holds
  · simp [isForbidden, small]

theorem allowed_ignored {c : Char} (ignored : Scan.isIgnored c = true) : isForbidden c = false :=
  allowed_of (by decide) ignored

theorem allowed_name {c : Char} (continues : isNameContinue c = true) : isForbidden c = false :=
  allowed_of (by decide) continues

theorem allowed_numeric {c : Char} (numeric : isNumeric c = true) : isForbidden c = false :=
  allowed_of (by decide) numeric

theorem allowed_break {c : Char} (breaks : isLineBreak c = true) : isForbidden c = false :=
  allowed_of (by decide) breaks

theorem clean_mark (mark : Punctuator) : Clean mark.text.toList := by
  cases mark <;> simp [Clean, Punctuator.text, isForbidden]

theorem Escapes.clean {word : List Char} {c : Char} (escapes : Escapes word c) : Clean word := by
  have marks : Clean escapeMarks := by decide
  intro d member
  rcases escapes.mark_or_digit member with mark | ⟨value, known⟩
  · exact marks d mark
  · exact @allowed_of (fun d => (Hex.value? d).isSome) (by decide) d (by simp [known])

/-! Strings, whether or not they are closed. -/

theorem clean_behind (front : List Char) {rest : List Char} {size : Nat} (clean : Clean front)
    (onward : Clean (rest.take size)) : Clean ((front ++ rest).take (front.length + size)) := by
  rw [List.take_length_add_append]
  exact clean_append.mpr ⟨clean, onward⟩

theorem clean_behindOne {c : Char} (allowed : isForbidden c = false) {rest : List Char} {size : Nat}
    (onward : Clean (rest.take size)) : Clean ((c :: rest).take (1 + size)) :=
  clean_behind [c] (clean_cons.mpr ⟨allowed, clean_nil⟩) onward

theorem quotedBody_clean {skip : Nat} {text : List Char} (skipped : Clean (text.take skip)) :
    Clean (text.take (quotedBody skip text).size) := by
  fun_induction quotedBody skip text with
  | case1 => exact clean_nil
  | case2 skip c rest ih =>
      rw [List.take_succ_cons, clean_cons] at skipped
      exact clean_behindOne skipped.1 (ih skipped.2)
  | case3 rest => exact @clean_behindOne '"' (by decide) rest 0 clean_nil
  | case4 => exact clean_nil
  | case5 rest found size decoded quote breaks ih =>
      obtain ⟨word, left, rfl, length, escapes⟩ := escapes_of_escape decoded
      obtain rfl : size = word.length := length
      have inEscape : Clean ((word ++ left).take word.length) := by
        rw [List.take_left]
        exact escapes.clean
      exact clean_behindOne (by decide) (ih inEscape)
  | case6 => exact clean_nil
  | case7 => exact clean_nil
  | case8 c rest quote breaks slash allowed ih =>
      exact clean_behindOne (by simpa using allowed) (ih clean_nil)

theorem blockBody_clean (text : List Char) : Clean (text.take (blockBody text).size) := by
  fun_induction blockBody text with
  | case1 => exact clean_nil
  | case2 rest => exact @clean_behind delimiter rest 0 (by decide) clean_nil
  | case3 rest ih => exact clean_behind ['\\', '"', '"', '"'] (by decide) ih
  | case4 rest ih => exact clean_behind ['\r', '\n'] (by decide) ih
  | case5 c rest noQuotes noEscape noPair breaks ih =>
      exact clean_behindOne (allowed_break breaks) ih
  | case6 => exact clean_nil
  | case7 c rest noQuotes noEscape noPair sameLine allowed ih =>
      exact clean_behindOne (by simpa using allowed) ih

theorem quoted_clean (rest : List Char) :
    Clean (('"' :: rest).take (lexeme ('"' :: rest)).size) := by
  by_cases triple : ∃ tail, rest = '"' :: '"' :: tail
  · obtain ⟨tail, rfl⟩ := triple
    exact clean_behind delimiter (by decide) (blockBody_clean tail)
  · rw [lexeme_quoted fun tail same => triple ⟨tail, same⟩]
    exact clean_behindOne (by decide) (quotedBody_clean clean_nil)

/-- The slice of a lexeme that is no comment is clean. -/
theorem Sliced.clean {text slice rest : List Char} {found : Lexeme}
    (sliced : Sliced text found slice rest) (noComment : found.isComment = false) :
    Clean slice := by
  have form := sliced.form
  have alone := sliced.alone
  cases slice with
  | nil => exact clean_nil
  | cons c others =>
      have outcome : (lexeme (c :: others)).outcome = .ok found := by
        rw [alone]
        rfl
      have proper := (lexeme_ok outcome).2.resolve_right (by simp [noComment])
      cases found with
      | sof | eof => cases form
      | punctuator mark =>
          rw [show c :: others = mark.text.toList from form]
          exact clean_mark mark
      | name text =>
          rw [show c :: others = text.toList from form]
          exact fun d member => allowed_name (isNameContinue_of_isName proper d member)
      | int text =>
          rw [show c :: others = text.toList from form]
          exact fun d member => allowed_numeric (numeric_proper (.inl proper) d member)
      | float text =>
          rw [show c :: others = text.toList from form]
          exact fun d member => allowed_numeric (numeric_proper (.inr proper) d member)
      | string value | blockString value =>
          obtain ⟨inner, same⟩ := form
          obtain rfl : c = '"' := (List.cons.inj same).1
          have clean := quoted_clean others
          rwa [alone, Reading.done, List.take_length] at clean
      | comment text => cases noComment

end GraphQL.Lexical

import GraphQL.Lexical.Text

/-!
Texts as lines. A text without carriage returns is its lines with line feeds between them,
and indenting it indents every line but the first.
-/

namespace GraphQL

open Lexical (prepend)

/-- The text with `width` blanks behind every line feed. -/
def indentBy (width : Nat) (text : List Char) : List Char :=
  text.flatMap fun c => if c = '\n' then '\n' :: List.replicate width ' ' else [c]

def indentLines (width : Nat) (lines : List (List Char)) : List (List Char) :=
  lines.map (List.replicate width ' ' ++ ·)

theorem indentLines_append (width : Nat) (left right : List (List Char)) :
    indentLines width (left ++ right) = indentLines width left ++ indentLines width right :=
  List.map_append

@[simp] theorem indentBy_nil (width : Nat) : indentBy width [] = [] := rfl

@[simp] theorem indentBy_append (width : Nat) (left right : List Char) :
    indentBy width (left ++ right) = indentBy width left ++ indentBy width right :=
  List.flatMap_append

theorem indentBy_newline (width : Nat) (rest : List Char) :
    indentBy width ('\n' :: rest) = '\n' :: (List.replicate width ' ' ++ indentBy width rest) := by
  simp [indentBy]

theorem indentBy_cons {width : Nat} {c : Char} {rest : List Char} (sameLine : c ≠ '\n') :
    indentBy width (c :: rest) = c :: indentBy width rest := by
  simp [indentBy, sameLine]

theorem indentBy_line {width : Nat} {line : List Char} (sameLine : '\n' ∉ line) :
    indentBy width line = line := by
  induction line with
  | nil => rfl
  | cons c rest ih =>
      have parts : '\n' ≠ c ∧ '\n' ∉ rest := by simpa using sameLine
      rw [indentBy_cons (Ne.symm parts.1), ih parts.2]

theorem indentBy_indentBy (outer inner : Nat) (text : List Char) :
    indentBy outer (indentBy inner text) = indentBy (outer + inner) text := by
  induction text with
  | nil => rfl
  | cons c rest ih =>
      by_cases newline : c = '\n'
      · subst newline
        have blanks : '\n' ∉ List.replicate inner ' ' := by simp
        rw [indentBy_newline, indentBy_newline, indentBy_newline, indentBy_append,
          indentBy_line blanks, ih, ← List.replicate_append_replicate, List.append_assoc]
      · rw [indentBy_cons newline, indentBy_cons newline, indentBy_cons newline, ih]

@[simp] theorem indentBy_zero (text : List Char) : indentBy 0 text = text := by
  induction text with
  | nil => rfl
  | cons c rest ih =>
      by_cases newline : c = '\n'
      · subst newline
        rw [indentBy_newline, ih]
        rfl
      · rw [indentBy_cons newline, ih]

theorem head_indentBy (width : Nat) (text : List Char) :
    (indentBy width text).head? = text.head? := by
  cases text with
  | nil => rfl
  | cons c rest =>
      by_cases newline : c = '\n'
      · subst newline
        rw [indentBy_newline]
        rfl
      · rw [indentBy_cons newline]
        rfl

theorem mem_indentBy {width : Nat} {text : List Char} {c : Char}
    (member : c ∈ indentBy width text) :
    c ∈ text ∨ c = ' ' := by
  obtain ⟨origin, found, spread⟩ := List.mem_flatMap.mp member
  split at spread
  · rename_i newline
    rcases List.mem_cons.mp spread with rfl | blank
    · exact .inl (newline ▸ found)
    · exact .inr (List.eq_of_mem_replicate blank)
  · obtain rfl : c = origin := by simpa using spread
    exact .inl found

theorem splitLines_newline (rest : List Char) :
    splitLines ('\n' :: rest) = [] :: splitLines rest := by
  simp [splitLines, isLineBreak]

theorem splitLines_return (rest : List Char) :
    splitLines ('\r' :: '\n' :: rest) = splitLines ('\n' :: rest) := by
  rw [splitLines_newline, splitLines]

theorem splitLines_break {c : Char} {rest : List Char} (breaks : isLineBreak c = true)
    (unpaired : ∀ behind, c = '\r' → rest = '\n' :: behind → False) :
    splitLines (c :: rest) = [] :: splitLines rest := by
  simp only [splitLines, breaks, if_true]

theorem splitLines_plain {c : Char} (sameLine : isLineBreak c = false) (rest : List Char) :
    splitLines (c :: rest) = prepend [c] (splitLines rest) := by
  have noReturn : c ≠ '\r' := by
    rintro rfl
    exact absurd sameLine (by decide)
  have unpaired : ∀ behind, c = '\r' → rest = '\n' :: behind → False :=
    fun _ isReturn _ => noReturn isReturn
  simp only [splitLines, sameLine, Bool.false_eq_true, if_false]
  cases splitLines rest <;> rfl

theorem splitLines_ne_nil (text : List Char) : splitLines text ≠ [] := by
  fun_cases splitLines text <;> simp_all

theorem prepend_append {lines more : List (List Char)} (nonempty : lines ≠ []) (text : List Char) :
    prepend text (lines ++ more) = prepend text lines ++ more := by
  cases lines with
  | nil => exact absurd rfl nonempty
  | cons line rest => rfl

theorem length_prepend {lines : List (List Char)} (nonempty : lines ≠ []) (text : List Char) :
    (prepend text lines).length = lines.length := by
  cases lines with
  | nil => exact absurd rfl nonempty
  | cons line rest => rfl

theorem prepend_prepend (first second : List Char) {lines : List (List Char)}
    (nonempty : lines ≠ []) :
    prepend first (prepend second lines) = prepend (first ++ second) lines := by
  cases lines with
  | nil => exact absurd rfl nonempty
  | cons line rest => simp [prepend]

theorem splitLines_line {line : List Char} (sameLine : ∀ c ∈ line, isLineBreak c = false)
    (rest : List Char) : splitLines (line ++ rest) = prepend line (splitLines rest) := by
  induction line with
  | nil => cases same : splitLines rest with
    | nil => exact absurd same (splitLines_ne_nil rest)
    | cons first others => simpa [prepend] using same
  | cons c line ih =>
      have first := sameLine c List.mem_cons_self
      have others := ih fun d member => sameLine d (List.mem_cons_of_mem c member)
      rw [List.cons_append, splitLines_plain first, others,
        prepend_prepend _ _ (splitLines_ne_nil rest)]
      rfl

/-- Lines are found by searching for the next break: the first one ends there, and what is behind
the break is split on its own. -/
theorem splitLines_search (text : List Char) :
    splitLines text =
      text.takeWhile (fun c => !isLineBreak c) ::
        match text.dropWhile (fun c => !isLineBreak c) with
        | [] => []
        | '\r' :: '\n' :: rest => splitLines rest
        | _ :: rest => splitLines rest := by
  have sameLine : ∀ c ∈ text.takeWhile fun c => !isLineBreak c, isLineBreak c = false := by
    intro c member
    simpa using List.all_eq_true.mp List.all_takeWhile c member
  have first := splitLines_line sameLine (text.dropWhile fun c => !isLineBreak c)
  rw [List.takeWhile_append_dropWhile] at first
  rw [first]
  split
  · next ended =>
    rw [ended]
    simp [splitLines, prepend]
  · next rest broken =>
    rw [broken, splitLines]
    simp [prepend]
  · next c rest unpaired broken =>
    have breaks : isLineBreak c = true := by
      have fails := List.head?_dropWhile_not (fun c => !isLineBreak c) text
      rw [broken] at fails
      simpa using fails
    rw [broken, splitLines_break breaks unpaired]
    simp [prepend]

theorem mem_intercalate {separator c : Char} {lines : List (List Char)}
    (member : c ∈ [separator].intercalate lines) : (∃ line ∈ lines, c ∈ line) ∨ c = separator := by
  induction lines with
  | nil => cases member
  | cons line rest ih =>
      cases rest with
      | nil => exact .inl ⟨line, List.mem_cons_self, by simpa using member⟩
      | cons next others =>
          rw [List.intercalate_cons_cons, List.append_assoc] at member
          rcases List.mem_append.mp member with found | behind
          · exact .inl ⟨line, List.mem_cons_self, found⟩
          · rcases List.mem_cons.mp behind with same | behind
            · exact .inr same
            · refine (ih behind).imp_left ?_
              rintro ⟨other, inside, found⟩
              exact ⟨other, List.mem_cons_of_mem line inside, found⟩

theorem splitLines_intercalate {lines : List (List Char)} (nonempty : lines ≠ [])
    (sameLine : ∀ line ∈ lines, ∀ c ∈ line, isLineBreak c = false) :
    splitLines (['\n'].intercalate lines) = lines := by
  induction lines with
  | nil => exact absurd rfl nonempty
  | cons line rest ih =>
      have first := sameLine line List.mem_cons_self
      cases rest with
      | nil =>
          have whole := splitLines_line first []
          simpa [splitLines, prepend] using whole
      | cons next others =>
          have tail := ih (by simp) fun l member => sameLine l (List.mem_cons_of_mem line member)
          rw [List.intercalate_cons_cons, List.append_assoc, splitLines_line first,
            List.singleton_append, splitLines_newline, tail]
          simp [prepend]

/-- A text without carriage returns is empty, or goes on behind a line feed or behind another
character of its first line. -/
theorem unreturned_induction {motive : (text : List Char) → '\r' ∉ text → Prop}
    (nil : ∀ none, motive [] none)
    (newline : ∀ rest whole noReturn, motive rest noReturn → motive ('\n' :: rest) whole)
    (plain : ∀ c rest whole noReturn, isLineBreak c = false → motive rest noReturn →
      motive (c :: rest) whole)
    (text : List Char) (noReturn : '\r' ∉ text) : motive text noReturn := by
  induction text with
  | nil => exact nil noReturn
  | cons c rest ih =>
      have parts : '\r' ≠ c ∧ '\r' ∉ rest := by simpa using noReturn
      by_cases ends : c = '\n'
      · subst ends
        exact newline rest noReturn parts.2 (ih parts.2)
      · have sameLine : isLineBreak c = false := by
          simp [isLineBreak, ends, Ne.symm parts.1]
        exact plain c rest noReturn parts.2 sameLine (ih parts.2)

section
variable {text : List Char} (noReturn : '\r' ∉ text)
include noReturn

theorem intercalate_splitLines : ['\n'].intercalate (splitLines text) = text := by
  induction text, noReturn using unreturned_induction with
  | nil => rfl
  | newline rest _ _ ih =>
      rw [splitLines_newline]
      cases same : splitLines rest with
      | nil => exact absurd same (splitLines_ne_nil rest)
      | cons line others =>
          rw [List.intercalate_cons_cons, ← same, ih]
          rfl
  | plain c rest _ _ sameLine ih =>
      rw [splitLines_plain sameLine]
      cases same : splitLines rest with
      | nil => exact absurd same (splitLines_ne_nil rest)
      | cons line others =>
          rw [same] at ih
          cases others with
          | nil =>
              simp only [List.intercalate_singleton] at ih
              simp [prepend, ih]
          | cons next more =>
              rw [List.intercalate_cons_cons] at ih
              simp only [prepend]
              rw [List.intercalate_cons_cons, ← ih]
              simp

theorem splitLines_snoc : splitLines (text ++ ['\n']) = splitLines text ++ [[]] := by
  induction text, noReturn using unreturned_induction with
  | nil => rfl
  | newline rest _ _ ih =>
      rw [List.cons_append, splitLines_newline, splitLines_newline, ih]
      rfl
  | plain c rest _ _ sameLine ih =>
      rw [List.cons_append, splitLines_plain sameLine, splitLines_plain sameLine, ih,
        prepend_append (splitLines_ne_nil rest)]

/-- Indenting a text puts its blanks in front of every line but the first. -/
theorem splitLines_indentBy (width : Nat) {first : List Char} {others : List (List Char)}
    (lines : splitLines text = first :: others) :
    splitLines (indentBy width text) = first :: indentLines width others := by
  induction text, noReturn using unreturned_induction generalizing first others with
  | nil =>
      obtain ⟨rfl, rfl⟩ := List.cons.inj lines
      rfl
  | newline rest _ _ ih =>
      obtain ⟨line, more, tail⟩ : ∃ line more, splitLines rest = line :: more :=
        List.exists_cons_of_ne_nil (splitLines_ne_nil rest)
      have blanks : ∀ d ∈ List.replicate width ' ', isLineBreak d = false := by
        intro d member
        rw [List.eq_of_mem_replicate member]
        rfl
      rw [splitLines_newline, tail] at lines
      obtain ⟨rfl, rfl⟩ := List.cons.inj lines
      rw [indentBy_newline, splitLines_newline, splitLines_line blanks, ih tail]
      rfl
  | plain c rest _ _ sameLine ih =>
      obtain ⟨line, more, tail⟩ : ∃ line more, splitLines rest = line :: more :=
        List.exists_cons_of_ne_nil (splitLines_ne_nil rest)
      have other : c ≠ '\n' := by
        rintro rfl
        cases sameLine
      rw [splitLines_plain sameLine, tail] at lines
      obtain ⟨rfl, rfl⟩ := List.cons.inj lines
      rw [indentBy_cons other, splitLines_plain sameLine, ih tail]
      rfl

end

end GraphQL

import GraphQL.Lexical.Lexeme
import GraphQL.Proofs.Dedent
import GraphQL.Proofs.Lexical.Quoted
import GraphQL.Proofs.Lines

/-!
Block strings read back as they were written, however far their literal is indented, and
every value that is read is one that a block string can have.
-/

namespace GraphQL

namespace BlockString

theorem escape_cons {c : Char} {rest : List Char}
    (plain : ∀ behind, c = '"' → rest = '"' :: '"' :: behind → False) :
    escape (c :: rest) = c :: escape rest := by
  simp only [escape]

theorem escape_quotes (rest : List Char) :
    escape ('"' :: '"' :: '"' :: rest) = '\\' :: '"' :: '"' :: '"' :: escape rest := by
  simp only [escape]

theorem escape_newline (left right : List Char) :
    escape (left ++ '\n' :: right) = escape left ++ '\n' :: escape right := by
  fun_induction escape left with
  | case1 => exact escape_cons fun _ quote _ => absurd quote (by decide)
  | case2 rest ih =>
      rw [List.cons_append, List.cons_append, List.cons_append, escape_quotes, ih]
      rfl
  | case3 c rest plain ih =>
      have still : ∀ behind, c = '"' → rest ++ '\n' :: right = '"' :: '"' :: behind → False := by
        intro behind quote same
        match rest, same with
        | [], same => simp at same
        | [d], same => simp at same
        | d :: e :: others, same =>
            simp only [List.cons_append, List.cons.injEq] at same
            obtain ⟨rfl, rfl, _⟩ := same
            exact plain others quote rfl
      rw [List.cons_append, escape_cons still, ih]
      rfl

theorem escape_unquoted {word : List Char} (unquoted : '"' ∉ word) (rest : List Char) :
    escape (word ++ rest) = word ++ escape rest := by
  induction word with
  | nil => rfl
  | cons c word ih =>
      have parts : '"' ≠ c ∧ '"' ∉ word := by simpa using unquoted
      rw [List.cons_append, escape_cons fun _ quote _ => parts.1 quote.symm, ih parts.2]
      rfl

theorem escape_of_no_delimiter {text : List Char} (plain : ¬delimiter <:+: text) :
    escape text = text := by
  fun_induction escape text with
  | case1 => rfl
  | case2 rest ih => exact absurd ⟨[], rest, rfl⟩ plain
  | case3 c rest _ ih =>
      rw [ih fun inside => plain (inside.trans (List.suffix_cons c rest).isInfix)]

theorem indentBy_quotes {width : Nat} {rest behind : List Char}
    (same : indentBy width rest = '"' :: '"' :: behind) :
    ∃ others, rest = '"' :: '"' :: others := by
  cases rest with
  | nil => cases same
  | cons c rest =>
      by_cases newline : c = '\n'
      · subst newline
        rw [indentBy_newline] at same
        simp at same
      · rw [indentBy_cons newline] at same
        obtain ⟨rfl, tail⟩ := List.cons.inj same
        have head := head_indentBy width rest
        rw [tail] at head
        cases rest with
        | nil => cases head
        | cons d others =>
            obtain rfl : '"' = d := by simpa using head
            exact ⟨others, rfl⟩

theorem escape_indentBy (width : Nat) (text : List Char) :
    escape (indentBy width text) = indentBy width (escape text) := by
  fun_induction escape text with
  | case1 => rfl
  | case2 rest ih =>
      have sameLine : ∀ {more : List Char},
          indentBy width ('"' :: more) = '"' :: indentBy width more :=
        indentBy_cons (by decide)
      have slash : ('\\' : Char) ≠ '\n' := by decide
      rw [sameLine, sameLine, sameLine, escape_quotes, ih, indentBy_cons slash, sameLine, sameLine,
        sameLine]
  | case3 c rest plain ih =>
      by_cases newline : c = '\n'
      · subst newline
        have unquoted : '"' ∉ List.replicate width ' ' := by
          intro member
          exact absurd (List.eq_of_mem_replicate member) (by decide)
        rw [indentBy_newline, indentBy_newline,
          escape_cons fun _ quote _ => absurd quote (by decide), escape_unquoted unquoted, ih]
      · have still : ∀ behind, c = '"' → indentBy width rest = '"' :: '"' :: behind → False := by
          intro behind quote same
          obtain ⟨others, split⟩ := indentBy_quotes same
          exact plain others quote split
        rw [indentBy_cons newline, indentBy_cons newline, escape_cons still, ih]

/-- The end of a text can neither join the closing delimiter nor escape it. -/
def Closes (text : List Char) : Prop := ∀ c ∈ text.getLast?, c ≠ '"' ∧ c ≠ '\\'

theorem Closes.tail {c : Char} {rest : List Char} (closes : Closes (c :: rest)) : Closes rest := by
  intro last member
  cases rest with
  | nil => cases member
  | cons d others => exact closes last (by rwa [List.getLast?_cons_cons])

theorem Closes.indentBy {text : List Char} (closes : Closes text) (width : Nat) :
    Closes (indentBy width text) := by
  rcases List.eq_nil_or_concat text with rfl | ⟨front, c, rfl⟩
  · exact closes
  rw [List.concat_eq_append] at closes ⊢
  intro last isLast
  have nonempty : GraphQL.indentBy width [c] ≠ [] := by
    by_cases newline : c = '\n' <;> simp [GraphQL.indentBy, newline]
  rw [indentBy_append, List.getLast?_append, Option.mem_def] at isLast
  rw [Option.or_of_isSome (by simpa using nonempty)] at isLast
  by_cases newline : c = '\n'
  · subst newline
    rw [indentBy_newline, indentBy_nil, List.append_nil] at isLast
    rcases List.mem_cons.mp (List.mem_of_getLast? isLast) with rfl | blank
    · decide
    · rw [List.eq_of_mem_replicate blank]
      decide
  · rw [indentBy_cons newline] at isLast
    exact closes last (by simpa using isLast)

theorem quote_of_escape {text tail behind : List Char} (nonempty : text ≠ [])
    (same : escape text ++ tail = '"' :: behind) :
    ∃ more, text = '"' :: more ∧ (∀ others, more ≠ '"' :: '"' :: others) ∧
      escape more ++ tail = behind := by
  revert same
  fun_cases escape text with
  | case1 => exact absurd rfl nonempty
  | case2 others =>
      intro same
      rw [List.cons_append] at same
      exact absurd (List.cons.inj same).1 (by decide)
  | case3 c others plain =>
      intro same
      obtain ⟨rfl, tail⟩ := List.cons.inj same
      exact ⟨others, rfl, fun more split => plain more rfl split, tail⟩

section
variable {text : List Char} (closes : Closes text)
include closes

theorem Closes.ne_quote : text ≠ ['"'] := by
  rintro rfl
  exact (closes '"' rfl).1 rfl

theorem escape_not_delimiter (nonempty : text ≠ []) (tail behind : List Char) :
    escape text ++ tail ≠ '"' :: '"' :: '"' :: behind := by
  intro same
  -- Each of the three quotes would be one of the text, where escaping leaves no three in a row.
  obtain ⟨second, rfl, plain, same⟩ := quote_of_escape nonempty same
  have some' : second ≠ [] := by
    rintro rfl
    exact closes.ne_quote rfl
  obtain ⟨third, rfl, _, same⟩ := quote_of_escape some' same
  have some' : third ≠ [] := by
    rintro rfl
    exact closes.tail.ne_quote rfl
  obtain ⟨others, rfl, _, _⟩ := quote_of_escape some' same
  exact plain others rfl

end

end BlockString

namespace Lexical

open BlockString (Closes delimiter)

theorem blockBody_delimiter (rest : List Char) : blockBody (delimiter ++ rest) = .done 3 [[]] := by
  simp only [delimiter, List.cons_append, blockBody]

theorem blockBody_return (rest : List Char) :
    blockBody ('\r' :: '\n' :: rest) = (blockBody ('\n' :: rest)).behind 1 := by
  have newline : isLineBreak '\n' = true := by decide
  rw [blockBody, blockBody, if_pos newline, Reading.behind_behind]
  · rintro behind ⟨⟩
  · rintro behind ⟨⟩
  · rintro behind ⟨⟩

theorem blockBody_cons {c : Char} {rest : List Char}
    (unpaired : ∀ behind, c = '\r' → rest = '\n' :: behind → False)
    (allowed : isForbidden c = false)
    (open' : ∀ behind, c = '"' → rest = '"' :: '"' :: behind → False)
    (escaped : ∀ behind, c = '\\' → rest = '"' :: '"' :: '"' :: behind → False) :
    blockBody (c :: rest) =
      if isLineBreak c then ((blockBody rest).map ([] :: ·)).behind 1
      else ((blockBody rest).map (prepend [c])).behind 1 := by
  simp only [blockBody, allowed, Bool.false_eq_true, if_false]

theorem newline_of_escape {text rest behind : List Char}
    (same : BlockString.escape text ++ (delimiter ++ rest) = '\n' :: behind) :
    ∃ more, text = '\n' :: more := by
  revert same
  fun_cases BlockString.escape text with
  | case1 => rintro ⟨⟩
  | case2 => rintro ⟨⟩
  | case3 c others =>
      rintro ⟨⟩
      exact ⟨others, rfl⟩

/-- Escaped, a text that closes is read up to the delimiter behind it, as the lines that it has. -/
theorem blockBody_escape {text : List Char} (allowed : ∀ c ∈ text, isForbidden c = false)
    (closes : Closes text) (rest : List Char) :
    blockBody (BlockString.escape text ++ (delimiter ++ rest)) =
      .done ((BlockString.escape text).length + 3) (splitLines text) := by
  fun_induction BlockString.escape text with
  | case1 => exact blockBody_delimiter rest
  | case2 others ih =>
      have inner := ih (fun c member => allowed c (by simp [member])) closes.tail.tail.tail
      have quotes : ∀ c ∈ delimiter, isLineBreak c = false := by simp [delimiter, isLineBreak]
      have lines : splitLines ('"' :: '"' :: '"' :: others) =
          prepend delimiter (splitLines others) :=
        splitLines_line quotes others
      simp only [List.cons_append, blockBody, inner, lines, Reading.map_done, Reading.behind_done,
        List.length_cons]
      congr 1
      omega
  | case3 c others plain ih =>
      have inner := ih (fun d member => allowed d (List.mem_cons_of_mem c member)) closes.tail
      rw [List.cons_append]
      by_cases paired : c = '\r' ∧ ∃ behind, others = '\n' :: behind
      · obtain ⟨rfl, behind, rfl⟩ := paired
        have newline : BlockString.escape ('\n' :: behind) = '\n' :: BlockString.escape behind :=
          BlockString.escape_cons fun _ quote _ => absurd quote (by decide)
        rw [newline, List.cons_append] at inner ⊢
        rw [blockBody_return, inner, Reading.behind_done, splitLines_return]
        simp only [List.length_cons]
        congr 1
        omega
      have unpaired : ∀ behind, c = '\r' →
          BlockString.escape others ++ (delimiter ++ rest) = '\n' :: behind → False :=
        fun _ isReturn same => paired ⟨isReturn, newline_of_escape same⟩
      -- Neither a delimiter nor an escaped one begins here, even with what follows: the last
      -- character of the text is neither a quote nor a backslash.
      have noDelimiter : ∀ behind, c = '"' →
          BlockString.escape others ++ (delimiter ++ rest) = '"' :: '"' :: behind → False := by
        rintro behind rfl same
        apply BlockString.escape_not_delimiter closes (List.cons_ne_nil _ _)
          (delimiter ++ rest) behind
        rw [BlockString.escape_cons plain, List.cons_append, same]
      have noEscape : ∀ behind, c = '\\' →
          BlockString.escape others ++ (delimiter ++ rest) = '"' :: '"' :: '"' :: behind →
          False := by
        rintro behind rfl same
        have some' : others ≠ [] := by
          rintro rfl
          exact (closes '\\' rfl).2 rfl
        exact BlockString.escape_not_delimiter closes.tail some' _ _ same
      rw [blockBody_cons unpaired (allowed c List.mem_cons_self) noDelimiter noEscape, inner]
      by_cases breaks : isLineBreak c = true
      · have alone : ∀ behind, c = '\r' → others = '\n' :: behind → False :=
          fun behind isReturn same => paired ⟨isReturn, behind, same⟩
        rw [splitLines_break breaks alone, if_pos breaks, Reading.map_done, Reading.behind_done,
          List.length_cons]
        congr 1
        omega
      · have sameLine : isLineBreak c = false := Bool.eq_false_iff.mpr breaks
        rw [splitLines_plain sameLine, if_neg breaks, Reading.map_done, Reading.behind_done,
          List.length_cons]
        congr 1
        omega

end Lexical

namespace BlockString

/-- How a literal frames its value so that it reads back: on lines of its own, in front of a
line break, or alone. -/
inductive Framed (value : List Char) : List Char → Prop
  | lines (dedented : areDedented (splitLines value) = true)
      (margin : hasMargin (splitLines value) = true) : Framed value ('\n' :: (value ++ ['\n']))
  | line (dedented : areDedented [value] = true) (single : splitLines value = [value]) :
      Framed value (value ++ ['\n'])
  | alone (dedented : value = [] ∨ areDedented [value] = true) (single : splitLines value = [value])
      (closes : Closes value) : Framed value value

section
variable {value : List Char} (noReturn : '\r' ∉ value)
include noReturn

theorem length_splitLines_escape :
    (splitLines (escape value)).length = (splitLines value).length := by
  fun_induction escape value with
  | case1 => rfl
  | case2 rest ih =>
      have tail := ih fun member => noReturn (by simp [member])
      have quotes : ∀ c ∈ delimiter, isLineBreak c = false := by simp [delimiter, isLineBreak]
      have escaped : ∀ c ∈ '\\' :: delimiter, isLineBreak c = false := by
        simp [delimiter, isLineBreak]
      have left := splitLines_line escaped (escape rest)
      have right := splitLines_line quotes rest
      simp only [delimiter, List.cons_append, List.nil_append] at left right
      rw [left, right, length_prepend (splitLines_ne_nil _), length_prepend (splitLines_ne_nil _),
        tail]
  | case3 c rest plain ih =>
      have parts : '\r' ≠ c ∧ '\r' ∉ rest := by simpa using noReturn
      have tail := ih parts.2
      by_cases newline : c = '\n'
      · subst newline
        rw [splitLines_newline, splitLines_newline, List.length_cons, List.length_cons, tail]
      · have sameLine : isLineBreak c = false := by
          simp [isLineBreak, newline, Ne.symm parts.1]
        rw [splitLines_plain sameLine, splitLines_plain sameLine,
          length_prepend (splitLines_ne_nil _), length_prepend (splitLines_ne_nil _), tail]

theorem splitLines_single (single : (splitLines value).length = 1) :
    splitLines value = [value] := by
  obtain ⟨line, same⟩ := List.length_eq_one_iff.mp single
  have joined := intercalate_splitLines noReturn
  rw [same, List.intercalate_singleton] at joined
  rw [same, joined]

end

section
variable {value : List Char}

theorem isValue_cases (isValue : BlockString.isValue value = true) :
    value = [] ∨
      ((∀ c ∈ value, c ≠ '\r' ∧ Lexical.isForbidden c = false) ∧
        areDedented (splitLines value) = true) := by
  simpa [BlockString.isValue] using isValue

theorem escape_snoc (value : List Char) : escape (value ++ ['\n']) = escape value ++ ['\n'] :=
  escape_newline value []

theorem escape_lines (value : List Char) :
    escape ('\n' :: (value ++ ['\n'])) = '\n' :: (escape value ++ ['\n']) := by
  rw [escape_cons fun _ quote _ => absurd quote (by decide), escape_snoc]

theorem closes_snoc (front : List Char) : Closes (front ++ ['\n']) := by
  intro c last
  obtain rfl : '\n' = c := by simpa using last
  decide

theorem closes_of_stays
    (quote : (value.getLast? == some '"' && !('\\' :: delimiter).isSuffixOf (escape value)) = false)
    (slash : (value.getLast? == some '\\') = false)
    (suffix : ('\\' :: delimiter).isSuffixOf (escape value) = false) : Closes value := by
  intro c last
  rw [Option.mem_def] at last
  rw [last] at quote slash
  rw [suffix] at quote
  constructor
  · rintro rfl
    simp at quote
  · rintro rfl
    simp at slash

section
variable {edge : List Char} (breaks : edge = [] ∨ edge = ['\n'])
include breaks

theorem mem_edge {c : Char} (member : c ∈ edge) : c = '\n' := by
  rcases breaks with rfl | rfl
  · cases member
  · exact List.mem_singleton.mp member

theorem escape_leading (text : List Char) : escape (edge ++ text) = edge ++ escape text := by
  rcases breaks with rfl | rfl
  · rfl
  · exact escape_cons fun _ quote _ => absurd quote (by decide)

theorem escape_trailing (text : List Char) : escape (text ++ edge) = escape text ++ edge := by
  rcases breaks with rfl | rfl
  · rw [List.append_nil, List.append_nil]
  · exact escape_snoc text

theorem Closes.leading {text : List Char} (closes : Closes text) : Closes (edge ++ text) := by
  rcases breaks with rfl | rfl
  · exact closes
  · cases text with
    | nil => exact closes_snoc []
    | cons c rest =>
        intro d last
        exact closes d (by rwa [List.singleton_append, List.getLast?_cons_cons] at last)

end

/-- Between its delimiters, every literal has its value with a line break on either side or on
none, escaped, and closes there. -/
theorem literal_closes (value : List Char) :
    ∃ framed, Closes framed ∧ (∀ c ∈ framed, c ∈ value ∨ c = '\n') ∧
      literal value = delimiter ++ (escape framed ++ delimiter) := by
  obtain ⟨leads, trails, closes, written⟩ : ∃ leads trails : Bool, (trails = false → Closes value) ∧
      literal value = delimiter ++ (if leads then ['\n'] else []) ++ escape value ++
        (if trails then ['\n'] else []) ++ delimiter := by
    refine ⟨_, _, fun stays => ?_, rfl⟩
    simp only [Bool.or_eq_false_iff] at stays
    obtain ⟨⟨⟨⟨_, quote⟩, slash⟩, _⟩, suffix⟩ := stays
    exact closes_of_stays quote slash suffix
  have edge (present : Bool) :
      (if present then ['\n'] else []) = [] ∨ (if present then ['\n'] else []) = ['\n'] := by
    cases present with
    | false => exact .inl rfl
    | true => exact .inr rfl
  have trailed : Closes (value ++ if trails then ['\n'] else []) := by
    cases trails with
    | false => simpa using closes rfl
    | true => exact closes_snoc value
  refine ⟨_, trailed.leading (edge leads), ?_, ?_⟩
  · intro c member
    rcases List.mem_append.mp member with first | behind
    · exact .inr (mem_edge (edge leads) first)
    · rcases List.mem_append.mp behind with inside | last
      · exact .inl inside
      · exact .inr (mem_edge (edge trails) last)
  · rw [written, escape_leading (edge leads), escape_trailing (edge trails)]
    simp only [List.append_assoc]

section
variable (noReturn : '\r' ∉ value)
include noReturn

theorem literal_several (several : (splitLines value).length ≠ 1) :
    literal value = delimiter ++ (escape ('\n' :: (value ++ ['\n'])) ++ delimiter) := by
  have lines : ((splitLines (escape value)).length == 1) = false := by
    simpa [length_splitLines_escape noReturn] using several
  simp only [literal, lines, Bool.not_false, Bool.true_or, Bool.false_and, Bool.and_true, if_true,
    escape_lines]
  simp

theorem literal_single (single : (splitLines value).length = 1) :
    ∃ breaks : Bool, (breaks = false → Closes value) ∧
      literal value = delimiter ++ (if breaks && !startsIndented value then ['\n'] else []) ++
        escape value ++ (if breaks then ['\n'] else []) ++ delimiter := by
  have lines : ((splitLines (escape value)).length == 1) = true := by
    simpa [length_splitLines_escape noReturn] using single
  have leading : needsLeadingBreak (splitLines (escape value)) = false := by
    simp [needsLeadingBreak, length_splitLines_escape noReturn, single]
  refine ⟨_, ?_, by simp only [literal, leading, lines, Bool.true_and, Bool.or_false]; rfl⟩
  intro stays
  simp only [Bool.or_eq_false_iff] at stays
  obtain ⟨⟨⟨_, quote⟩, slash⟩, suffix⟩ := stays
  exact closes_of_stays quote slash suffix

end

theorem literal_framed (isValue : BlockString.isValue value = true) :
    ∃ framed, Framed value framed ∧ literal value = delimiter ++ (escape framed ++ delimiter) := by
  rcases isValue_cases isValue with rfl | ⟨allowed, dedented⟩
  · exact ⟨[], .alone (.inl rfl) rfl (by intro c member; cases member), rfl⟩
  have noReturn : '\r' ∉ value := fun member => (allowed _ member).1 rfl
  -- The frame follows the printer: several lines and lines at the margin go between two breaks, a
  -- line that begins with blanks stays behind the delimiter.
  by_cases single : (splitLines value).length = 1
  · have line := splitLines_single noReturn single
    rw [line] at dedented
    obtain ⟨breaks, closes, written⟩ := literal_single noReturn single
    cases breaks with
    | false => exact ⟨value, .alone (.inr dedented) line (closes rfl), by simpa using written⟩
    | true =>
        by_cases starts : startsIndented value = true
        · refine ⟨value ++ ['\n'], .line dedented line, ?_⟩
          rw [escape_snoc]
          simpa [starts] using written
        · have text : isBlank value = false := by
            obtain ⟨first, rest, same, text⟩ := opens_of_areDedented dedented
            rwa [(List.cons.inj same).1]
          have margin : hasMargin (splitLines value) = true := by
            simp [hasMargin, line, text, starts]
          refine ⟨'\n' :: (value ++ ['\n']), .lines (by rwa [line]) margin, ?_⟩
          rw [escape_lines]
          simpa [starts] using written
  · have margin : hasMargin (splitLines value) = true := by
      have edges := dedented
      simp only [areDedented, Bool.and_eq_true, Bool.or_eq_true, beq_iff_eq] at edges
      exact edges.2.resolve_left single
    exact ⟨_, .lines dedented margin, literal_several noReturn single⟩

section
variable {framed : List Char} (layout : Framed value framed)
include layout

theorem Framed.mem {c : Char} (member : c ∈ framed) : c ∈ value ∨ c = '\n' := by
  cases layout with
  | lines => simpa [or_comm, or_assoc] using member
  | line => simpa using member
  | alone => exact .inl member

theorem Framed.closes : Closes framed := by
  cases layout with
  | lines => exact closes_snoc ('\n' :: value)
  | line => exact closes_snoc value
  | alone _ _ closes => exact closes

/-- However far a framed value is indented, dedenting gives the value back. -/
theorem Framed.join_dedentLines (noReturn : '\r' ∉ value) (width : Nat) :
    ['\n'].intercalate (dedentLines (splitLines (indentBy width framed))) = value := by
  have unbroken : '\r' ∉ framed := by
    intro member
    rcases layout.mem member with found | same
    · exact noReturn found
    · cases same
  cases layout with
  | lines dedented margin =>
      have lines : splitLines ('\n' :: (value ++ ['\n'])) = [] :: (splitLines value ++ [[]]) := by
        rw [splitLines_newline, splitLines_snoc noReturn]
      have last : indentLines width [[]] = [List.replicate width ' '] := by simp [indentLines]
      rw [splitLines_indentBy unbroken width lines, indentLines_append, last,
        dedentLines_indentLines dedented width margin, intercalate_splitLines noReturn]
  | line dedented single =>
      have lines : splitLines (value ++ ['\n']) = [value, []] := by
        rw [splitLines_snoc noReturn, single]
        rfl
      have last : indentLines width [[]] = [List.replicate width ' '] := by simp [indentLines]
      rw [splitLines_indentBy unbroken width lines, last, (dedentLines_single dedented width).2,
        List.intercalate_singleton]
  | alone dedented single _ =>
      rw [splitLines_indentBy unbroken width single]
      rcases dedented with rfl | dedented
      · rfl
      · exact (congrArg _ (dedentLines_single dedented width).1).trans
          (List.intercalate_singleton)

end

end

end BlockString

namespace Lexical

open BlockString (delimiter)

theorem lexeme_delimiter (text : List Char) :
    lexeme (delimiter ++ text) =
      ((blockBody text).map fun lines =>
        .blockString
          (String.ofList (['\n'].intercalate (BlockString.dedentLines lines)))).behind 3 :=
  rfl

/-- A literal reads back at any indentation, whatever follows it. -/
theorem lexeme_literal {value : List Char} (isValue : BlockString.isValue value = true)
    (width : Nat) (rest : List Char) :
    lexeme (indentBy width (BlockString.literal value) ++ rest) =
      .done (indentBy width (BlockString.literal value)).length
        (.blockString (String.ofList value)) := by
  obtain ⟨framed, layout, written⟩ := BlockString.literal_framed isValue
  have allowed : ∀ c ∈ value, c ≠ '\r' ∧ isForbidden c = false := by
    rcases BlockString.isValue_cases isValue with rfl | ⟨allowed, _⟩
    · simp
    · exact allowed
  have noReturn : '\r' ∉ value := fun member => (allowed _ member).1 rfl
  have origin : ∀ c ∈ indentBy width framed, c ∈ value ∨ c = '\n' ∨ c = ' ' := by
    intro c member
    rcases mem_indentBy member with found | blank
    · rcases layout.mem found with inside | newline
      · exact .inl inside
      · exact .inr (.inl newline)
    · exact .inr (.inr blank)
  have plain : ∀ c ∈ indentBy width framed, isForbidden c = false := by
    intro c member
    rcases origin c member with found | rfl | rfl
    · exact (allowed c found).2
    · decide
    · decide
  have delimiters : indentBy width delimiter = delimiter := indentBy_line (by decide)
  -- Indenting goes past the escapes, so that it is the framed value that is indented.
  have body := blockBody_escape plain (layout.closes.indentBy width) rest
  rw [written, indentBy_append, indentBy_append, delimiters, ← BlockString.escape_indentBy]
  rw [List.append_assoc, List.append_assoc, lexeme_delimiter, body, Reading.map_done,
    Reading.behind_done, layout.join_dedentLines noReturn]
  congr 1
  simp only [List.length_append, delimiter, List.length_cons, List.length_nil]

def IsPlain (line : List Char) : Prop := ∀ c ∈ line, isLineBreak c = false ∧ isForbidden c = false

theorem isPlain_prepend {text : List Char} {lines : List (List Char)} (plain : IsPlain text)
    (others : ∀ line ∈ lines, IsPlain line) : ∀ line ∈ prepend text lines, IsPlain line := by
  cases lines with
  | nil => simpa [prepend] using plain
  | cons first rest =>
      intro line member
      rcases List.mem_cons.mp member with rfl | found
      · intro c inside
        rcases List.mem_append.mp inside with left | right
        · exact plain c left
        · exact others first List.mem_cons_self c right
      · exact others line (List.mem_cons_of_mem first found)

theorem isPlain_blockBody {text : List Char} {lines : List (List Char)}
    (read : (blockBody text).outcome = .ok lines) : ∀ line ∈ lines, IsPlain line := by
  fun_induction blockBody text generalizing lines with
  | case1 => cases read
  | case2 =>
      obtain rfl : [[]] = lines := Except.ok.inj read
      simp [IsPlain]
  | case3 rest ih =>
      obtain ⟨inner, found, rfl⟩ := Reading.outcome_map read
      have quotes : IsPlain ['"', '"', '"'] := by simp [IsPlain, isLineBreak, isForbidden]
      exact isPlain_prepend quotes (ih found)
  | case4 rest ih | case5 c rest _ _ _ newline ih =>
      obtain ⟨inner, found, rfl⟩ := Reading.outcome_map read
      intro line member
      rcases List.mem_cons.mp member with rfl | old
      · simp [IsPlain]
      · exact ih found line old
  | case6 => cases read
  | case7 c rest _ _ _ sameLine allowed ih =>
      obtain ⟨inner, found, rfl⟩ := Reading.outcome_map read
      refine isPlain_prepend ?_ (ih found)
      simpa [IsPlain] using And.intro sameLine allowed

/-- Whatever a block string reads as is a value that it can have. -/
theorem isValue_blockBody {text : List Char} {lines : List (List Char)}
    (read : (blockBody text).outcome = .ok lines) :
    BlockString.isValue (['\n'].intercalate (BlockString.dedentLines lines)) = true := by
  have plain : ∀ line ∈ BlockString.dedentLines lines, IsPlain line := by
    intro line member c inside
    obtain ⟨origin, found, sub⟩ := BlockString.mem_dedentLines member
    exact isPlain_blockBody read origin found c (sub c inside)
  by_cases none : BlockString.dedentLines lines = []
  · rw [none]
    rfl
  have split :=
    splitLines_intercalate none fun line member c inside => (plain line member c inside).1
  have allowed : ∀ c ∈ ['\n'].intercalate (BlockString.dedentLines lines),
      c ≠ '\r' ∧ isForbidden c = false := by
    intro c member
    rcases mem_intercalate member with ⟨line, found, inside⟩ | rfl
    · obtain ⟨sameLine, fits⟩ := plain line found c inside
      refine ⟨?_, fits⟩
      rintro rfl
      exact absurd sameLine (by decide)
    · decide
  simp only [BlockString.isValue, split, BlockString.areDedented_dedentLines none]
  simpa using .inr allowed

end Lexical

end GraphQL

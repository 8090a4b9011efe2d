import GraphQL.Proofs.Lexical.Halts
import GraphQL.Proofs.Lexical.Proper
import GraphQL.Proofs.Lines

/-!
Dedenting lines gives lines that are dedented. Indenting all lines but the first changes nothing
about that, so dedenting undoes any indentation that dedented lines share: between two blank lines,
and alone on the first line.
-/

namespace GraphQL.BlockString

section DropTrailing
variable {drops : α → Bool}

theorem dropTrailing_snoc (members : List α) (last : α) :
    dropTrailing drops (members ++ [last]) =
      if drops last then dropTrailing drops members else members ++ [last] := by
  by_cases dropped : drops last = true <;> simp [dropTrailing, dropped]

theorem exists_dropTrailing (drops : α → Bool) (members : List α) :
    ∃ dropped, members = dropTrailing drops members ++ dropped ∧ ∀ x ∈ dropped, drops x = true := by
  refine ⟨(members.reverse.takeWhile drops).reverse, ?_, ?_⟩
  · rw [dropTrailing, ← List.reverse_append, List.takeWhile_append_dropWhile, List.reverse_reverse]
  · intro x member
    exact List.all_eq_true.mp List.all_takeWhile x (List.mem_reverse.mp member)

theorem last_dropTrailing {members : List α} {last : α}
    (isLast : (dropTrailing drops members).getLast? = some last) : drops last = false := by
  have fails := List.head?_dropWhile_not drops members.reverse
  rw [dropTrailing, List.getLast?_reverse] at isLast
  rw [isLast] at fails
  simpa using fails

theorem dropTrailing_kept {members : List α} (kept : ∀ x ∈ members.getLast?, drops x = false) :
    dropTrailing drops members = members := by
  rcases List.eq_nil_or_concat members with rfl | ⟨front, last, rfl⟩
  · rfl
  · rw [List.concat_eq_append] at kept ⊢
    rw [dropTrailing_snoc, if_neg]
    simp [kept last (by simp)]

theorem dropTrailing_append (members : List α) {dropped : List α}
    (all : ∀ x ∈ dropped, drops x = true) :
    dropTrailing drops (members ++ dropped) = dropTrailing drops members := by
  have back : ∀ x ∈ dropped.reverse, drops x = true :=
    fun x member => all x (List.mem_reverse.mp member)
  rw [dropTrailing, List.reverse_append, List.dropWhile_append_of_pos back]
  rfl

theorem mem_dropTrailing {members : List α} {x : α} (member : x ∈ members)
    (kept : drops x = false) : x ∈ dropTrailing drops members := by
  obtain ⟨dropped, split, all⟩ := exists_dropTrailing drops members
  rw [split] at member
  rcases List.mem_append.mp member with found | lost
  · exact found
  · rw [all x lost] at kept
    cases kept

theorem mem_of_dropTrailing {members : List α} {x : α} (member : x ∈ dropTrailing drops members) :
    x ∈ members := by
  obtain ⟨dropped, split, _⟩ := exists_dropTrailing drops members
  rw [split]
  exact List.mem_append_left dropped member

theorem mem_dropWhile {members : List α} {x : α} (member : x ∈ members) (kept : drops x = false) :
    x ∈ members.dropWhile drops := by
  rw [← List.takeWhile_append_dropWhile (p := drops) (l := members)] at member
  rcases List.mem_append.mp member with lost | found
  · rw [List.all_eq_true.mp List.all_takeWhile x lost] at kept
    cases kept
  · exact found

end DropTrailing

/-! Single lines. -/

theorem isBlank_append (left right : List Char) :
    isBlank (left ++ right) = (isBlank left && isBlank right) := by
  simp [isBlank]

theorem isBlank_replicate (width : Nat) : isBlank (List.replicate width ' ') = true := by
  simp only [isBlank, List.all_eq_true]
  intro c member
  rw [List.eq_of_mem_replicate member]
  rfl

theorem indentation_append {indent : List Char} (blank : isBlank indent = true)
    (line : List Char) : indentation (indent ++ line) = indent.length + indentation line := by
  rw [indentation, List.takeWhile_append_of_pos (List.all_eq_true.mp blank), List.length_append]
  rfl

theorem indentation_eq_zero (line : List Char) :
    indentation line = 0 ↔ startsIndented line = false := by
  cases line with
  | nil => simp [indentation, startsIndented]
  | cons c rest =>
      by_cases indent : isIndent c = true <;> simp [indentation, startsIndented, indent]

theorem startsIndented_drop (line : List Char) :
    startsIndented (line.drop (indentation line)) = false := by
  rw [← indentation_eq_zero]
  have split : line.drop (indentation line) = line.dropWhile isIndent :=
    Lexical.drop_length_takeWhile isIndent line
  rw [split, indentation_eq_zero]
  have fails := List.head?_dropWhile_not isIndent line
  unfold startsIndented
  cases first : (line.dropWhile isIndent).head? with
  | none => rfl
  | some c =>
      rw [first] at fails
      exact fails

theorem isBlank_take_indentation (line : List Char) {count : Nat}
    (few : count ≤ indentation line) : isBlank (line.take count) = true := by
  have isPrefix : line.take count <+: line.takeWhile isIndent := by
    apply List.prefix_of_prefix_length_le (List.take_prefix count line)
      (List.takeWhile_prefix isIndent)
    exact Nat.le_trans (List.length_take_le count line) few
  simp only [isBlank, List.all_eq_true]
  intro c member
  exact List.all_eq_true.mp List.all_takeWhile c (isPrefix.mem member)

theorem isBlank_drop_indentation (line : List Char) {count : Nat} (few : count ≤ indentation line) :
    isBlank (line.drop count) = isBlank line := by
  -- Rewriting everywhere would split the line again in what is taken of it.
  conv => rhs; rw [← List.take_append_drop count line]
  rw [isBlank_append, isBlank_take_indentation line few, Bool.true_and]

theorem isBlank_dropTrailing (line : List Char) :
    isBlank (dropTrailing isIndent line) = isBlank line := by
  obtain ⟨dropped, split, all⟩ := exists_dropTrailing isIndent line
  have back : isBlank dropped = true := List.all_eq_true.mpr all
  conv => rhs; rw [split]
  rw [isBlank_append, back, Bool.and_true]

theorem startsIndented_dropTrailing {line : List Char} (starts : startsIndented line = false) :
    startsIndented (dropTrailing isIndent line) = false := by
  obtain ⟨dropped, split, _⟩ := exists_dropTrailing isIndent line
  cases kept : dropTrailing isIndent line with
  | nil => rfl
  | cons c rest =>
      rw [kept] at split
      rw [split] at starts
      exact starts

theorem endsIndented_dropTrailing (line : List Char) :
    endsIndented (dropTrailing isIndent line) = false := by
  unfold endsIndented
  cases last : (dropTrailing isIndent line).getLast? with
  | none => rfl
  | some c =>
      show isIndent c = false
      exact last_dropTrailing last

/-! All lines of a text. -/

/-- A line with text at the margin. -/
def hasMargin (lines : List (List Char)) : Bool :=
  lines.any fun line => !isBlank line && !startsIndented line

section
variable {first : List Char} {rest : List (List Char)}

theorem commonIndentation_eq {least : Nat}
    (attained : ∃ line ∈ rest, isBlank line = false ∧ indentation line = least)
    (lower : ∀ line ∈ rest, isBlank line = false → least ≤ indentation line) :
    commonIndentation (first :: rest) = least := by
  have isLeast : ((rest.filter fun line => !isBlank line).map indentation).min? = some least := by
    rw [List.min?_eq_some_iff]
    constructor
    · obtain ⟨line, member, text, width⟩ := attained
      exact List.mem_map.mpr ⟨line, List.mem_filter.mpr ⟨member, by simp [text]⟩, width⟩
    · intro width member
      obtain ⟨line, kept, rfl⟩ := List.mem_map.mp member
      obtain ⟨inside, text⟩ := List.mem_filter.mp kept
      exact lower line inside (by simpa using text)
  rw [commonIndentation, List.drop_succ_cons, List.drop_zero, isLeast]
  rfl

theorem commonIndentation_least (first : List Char)
    (text : ∃ line ∈ rest, isBlank line = false) :
    (∃ line ∈ rest, isBlank line = false ∧
      indentation line = commonIndentation (first :: rest)) ∧
    ∀ line ∈ rest, isBlank line = false → commonIndentation (first :: rest) ≤ indentation line := by
  obtain ⟨found, member, full⟩ := text
  have kept : found ∈ rest.filter fun line => !isBlank line :=
    List.mem_filter.mpr ⟨member, by simp [full]⟩
  cases isLeast : ((rest.filter fun line => !isBlank line).map indentation).min? with
  | none =>
      have inside := List.mem_map_of_mem (f := indentation) kept
      rw [List.min?_eq_none_iff.mp isLeast] at inside
      cases inside
  | some least =>
      have common : commonIndentation (first :: rest) = least := by
        rw [commonIndentation, List.drop_succ_cons, List.drop_zero, isLeast]
        rfl
      obtain ⟨among, lower⟩ := List.min?_eq_some_iff.mp isLeast
      obtain ⟨line, inside, width⟩ := List.mem_map.mp among
      obtain ⟨inRest, isText⟩ := List.mem_filter.mp inside
      rw [common]
      refine ⟨⟨line, inRest, by simpa using isText, width⟩, fun line inRest isText => ?_⟩
      exact lower _ (List.mem_map_of_mem (List.mem_filter.mpr ⟨inRest, by simp [isText]⟩))

/-- Further indentation counts as common where there is text behind the first line. -/
theorem commonIndentation_reindent {indent : List Char} (blank : isBlank indent = true)
    (text : ∃ line ∈ rest, isBlank line = false) :
    commonIndentation (first :: rest.map (indent ++ ·)) =
      indent.length + commonIndentation (first :: rest) := by
  obtain ⟨⟨line, member, full, width⟩, lower⟩ := commonIndentation_least first text
  apply commonIndentation_eq
  · refine ⟨indent ++ line, List.mem_map_of_mem member, ?_, ?_⟩
    · rw [isBlank_append, full, Bool.and_false]
    · rw [indentation_append blank, width]
  · intro longer inside isText
    obtain ⟨origin, found, rfl⟩ := List.mem_map.mp inside
    rw [isBlank_append, blank, Bool.true_and] at isText
    rw [indentation_append blank]
    exact Nat.add_le_add_left (lower origin found isText) _

theorem shift_reindent {indent : List Char} (blank : isBlank indent = true)
    (text : ∃ line ∈ rest, isBlank line = false) :
    shift (first :: rest.map (indent ++ ·)) = shift (first :: rest) := by
  simp only [shift, commonIndentation_reindent blank text, List.map_map]
  refine congrArg (first :: ·) (List.map_congr_left fun line _ => ?_)
  rw [Function.comp_apply, indentation_append blank, Nat.add_min_add_left,
    List.drop_length_add_append]

theorem isBlank_of_shift {line : List Char} (member : line ∈ (shift (first :: rest)).drop 1) :
    ∃ origin ∈ rest, isBlank line = isBlank origin := by
  obtain ⟨origin, found, rfl⟩ := List.mem_map.mp member
  exact ⟨origin, found, isBlank_drop_indentation origin (Nat.min_le_right _ _)⟩

theorem dropTrailing_shift (blank : ∀ line ∈ rest, isBlank line = true) :
    dropTrailing isBlank (shift (first :: rest)) = dropTrailing isBlank [first] := by
  apply dropTrailing_append [first]
  intro line member
  obtain ⟨origin, found, same⟩ := isBlank_of_shift member
  rw [same, blank origin found]

/-- Indenting all lines behind the first changes nothing about the value. -/
theorem dedentLines_reindent {indent : List Char} (blank : isBlank indent = true) :
    dedentLines (first :: rest.map (indent ++ ·)) = dedentLines (first :: rest) := by
  by_cases text : ∃ line ∈ rest, isBlank line = false
  · rw [dedentLines, dedentLines, shift_reindent blank text]
  · have blanks : ∀ line ∈ rest, isBlank line = true := by simpa using text
    have longer : ∀ line ∈ rest.map (indent ++ ·), isBlank line = true := by
      intro line member
      obtain ⟨origin, found, rfl⟩ := List.mem_map.mp member
      rw [isBlank_append, blank, blanks origin found, Bool.and_self]
    rw [dedentLines, dedentLines, dropTrailing_shift blanks, dropTrailing_shift longer]

theorem shift_of_margin (margin : hasMargin rest = true) :
    shift (first :: rest) = first :: rest := by
  obtain ⟨line, member, edge⟩ := List.any_eq_true.mp margin
  simp only [Bool.and_eq_true, Bool.not_eq_true'] at edge
  have common : commonIndentation (first :: rest) = 0 :=
    commonIndentation_eq ⟨line, member, edge.1, (indentation_eq_zero line).mpr edge.2⟩
      fun _ _ _ => Nat.zero_le _
  simp only [shift, common, Nat.zero_min, List.drop_zero, List.map_id']

end

section
variable {lines : List (List Char)} (dedented : areDedented lines = true)
include dedented

theorem opens_of_areDedented : ∃ line rest, lines = line :: rest ∧ isBlank line = false := by
  simp only [areDedented, Bool.and_eq_true] at dedented
  have opens := dedented.1.1.1
  cases lines with
  | nil => cases opens
  | cons line rest => exact ⟨line, rest, rfl, by simpa using opens⟩

theorem closes_of_areDedented : ∀ line ∈ lines.getLast?, isBlank line = false := by
  simp only [areDedented, Bool.and_eq_true] at dedented
  intro line member
  have closes := dedented.1.1.2
  rw [Option.mem_def.mp member] at closes
  simpa using closes

theorem trimmed_of_areDedented : lines.map (dropTrailing isIndent) = lines := by
  simp only [areDedented, Bool.and_eq_true, List.all_eq_true] at dedented
  have kept : ∀ line ∈ lines, dropTrailing isIndent line = id line := by
    intro line member
    have ends := dedented.1.2 line member
    apply dropTrailing_kept
    intro c last
    rw [endsIndented, Option.mem_def.mp last] at ends
    simpa using ends
  exact (List.map_congr_left kept).trans (List.map_id lines)

/-- Dedenting takes off what dedented lines were indented by. -/
theorem dedentLines_indentLines (width : Nat) (margin : hasMargin lines = true) :
    dedentLines ([] :: (indentLines width lines ++ [List.replicate width ' '])) = lines := by
  have indented : indentLines width lines ++ [List.replicate width ' '] =
      (lines ++ [[]]).map (List.replicate width ' ' ++ ·) := by
    simp [indentLines]
  have edge : hasMargin (lines ++ [[]]) = true := by
    rw [hasMargin, List.any_append]
    exact Bool.or_eq_true_iff.mpr (.inl margin)
  have kept : dropTrailing isBlank ([] :: (lines ++ [[]])) = [] :: lines := by
    rw [← List.cons_append, dropTrailing_append _ (by simp [isBlank])]
    obtain ⟨first, rest, rfl, _⟩ := opens_of_areDedented dedented
    apply dropTrailing_kept
    rw [List.getLast?_cons_cons]
    exact closes_of_areDedented dedented
  have front : ([] :: lines).dropWhile isBlank = lines := by
    obtain ⟨first, rest, rfl, text⟩ := opens_of_areDedented dedented
    rw [List.dropWhile_cons_of_pos rfl, List.dropWhile_cons_of_neg (by simp [text])]
  rw [indented, dedentLines_reindent (isBlank_replicate width), dedentLines, shift_of_margin edge,
    kept, front, trimmed_of_areDedented dedented]

end

theorem dedentLines_single {line : List Char} (dedented : areDedented [line] = true) (width : Nat) :
    dedentLines [line] = [line] ∧ dedentLines [line, List.replicate width ' '] = [line] := by
  have blank := isBlank_replicate width
  obtain ⟨first, rest, same, text⟩ := opens_of_areDedented dedented
  obtain ⟨rfl, rfl⟩ := List.cons.inj same
  have alone : dropTrailing isBlank [line] = [line] := dropTrailing_kept (by simpa using text)
  have trimmed := trimmed_of_areDedented dedented
  constructor
  · simp only [dedentLines, shift, List.map_nil, alone]
    simpa [text] using trimmed
  · have behind : ∀ l ∈ [(List.replicate width ' ').drop 0], isBlank l = true := by
      simpa using blank
    have kept : dropTrailing isBlank [line, List.replicate width ' '] = [line] := by
      have dropped := dropTrailing_append [line] behind
      simpa [alone] using dropped
    have common : commonIndentation [line, List.replicate width ' '] = 0 := by
      simp [commonIndentation, blank]
    simp only [dedentLines, shift, common, Nat.zero_min, List.map_cons, List.map_nil,
      List.drop_zero, kept]
    simpa [text] using trimmed

theorem exists_margin_of_shift (first : List Char) {rest : List (List Char)}
    (text : ∃ line ∈ rest, isBlank line = false) :
    ∃ line ∈ (shift (first :: rest)).drop 1, isBlank line = false ∧ startsIndented line = false := by
  obtain ⟨⟨line, member, full, width⟩, _⟩ := commonIndentation_least first text
  refine ⟨line.drop (indentation line), ?_, ?_, startsIndented_drop line⟩
  · exact List.mem_map.mpr ⟨line, member, by rw [width, Nat.min_self]⟩
  · rw [isBlank_drop_indentation line (Nat.le_refl _), full]

/-- The lines from the first to the last with text, before their ends are trimmed. -/
def textLines (lines : List (List Char)) : List (List Char) :=
  (dropTrailing isBlank (shift lines)).dropWhile isBlank

theorem dedentLines_eq (lines : List (List Char)) :
    dedentLines lines = (textLines lines).map (dropTrailing isIndent) := rfl

theorem exists_margin_of_textLines {lines : List (List Char)}
    (several : 1 < (textLines lines).length) :
    ∃ line ∈ (shift lines).drop 1, isBlank line = false ∧ startsIndented line = false := by
  cases lines with
  | nil => cases several
  | cons first rest =>
      by_cases text : ∃ line ∈ rest, isBlank line = false
      · exact exists_margin_of_shift first text
      · have blank : ∀ line ∈ rest, isBlank line = true := by simpa using text
        have few : (textLines (first :: rest)).length ≤ 1 := by
          rw [textLines, dropTrailing_shift blank]
          obtain ⟨dropped, split, _⟩ := exists_dropTrailing isBlank [first]
          have bound := congrArg List.length split
          rw [List.length_append, List.length_singleton] at bound
          exact Nat.le_trans (List.dropWhile_sublist isBlank).length_le (by omega)
        omega

theorem mem_textLines {lines : List (List Char)} {line : List Char} (member : line ∈ shift lines)
    (text : isBlank line = false) : line ∈ textLines lines :=
  mem_dropWhile (mem_dropTrailing member text) text

theorem margin_textLines {lines : List (List Char)} (remains : textLines lines ≠ []) :
    (textLines lines).length = 1 ∨ hasMargin (textLines lines) = true := by
  have some' : 0 < (textLines lines).length := List.length_pos_iff.mpr remains
  rcases Nat.lt_or_ge 1 (textLines lines).length with several | few
  · obtain ⟨line, member, full, starts⟩ := exists_margin_of_textLines several
    have found := mem_textLines (List.mem_of_mem_drop member) full
    exact .inr (List.any_eq_true.mpr ⟨line, found, by simp [full, starts]⟩)
  · exact .inl (by omega)

section
variable {lines : List (List Char)} (remains : textLines lines ≠ [])
include remains

theorem textLines_opens : (textLines lines).head?.any (fun line => !isBlank line) = true := by
  have fails := List.head?_dropWhile_not isBlank (dropTrailing isBlank (shift lines))
  cases first : (textLines lines).head? with
  | none => exact absurd (List.head?_eq_none_iff.mp first) remains
  | some line =>
      rw [textLines] at first
      rw [first] at fails
      simpa using fails

theorem textLines_closes : (textLines lines).getLast?.any (fun line => !isBlank line) = true := by
  cases last : (textLines lines).getLast? with
  | none => exact absurd (List.getLast?_eq_none_iff.mp last) remains
  | some line =>
      have isLast : (dropTrailing isBlank (shift lines)).getLast? = some line := by
        rw [← List.takeWhile_append_dropWhile (p := isBlank)
          (l := dropTrailing isBlank (shift lines)), List.getLast?_append]
        exact congrArg (Option.or · _) last
      simp [last_dropTrailing isLast]

end

theorem areDedented_trimmed {lines : List (List Char)}
    (opens : lines.head?.any (fun line => !isBlank line) = true)
    (closes : lines.getLast?.any (fun line => !isBlank line) = true)
    (margin : lines.length = 1 ∨ hasMargin lines = true) :
    areDedented (lines.map (dropTrailing isIndent)) = true := by
  have blankMap : ∀ line, (!isBlank (dropTrailing isIndent line)) = !isBlank line := by
    intro line
    rw [isBlank_dropTrailing]
  simp only [areDedented, List.head?_map, List.getLast?_map, Option.any_map, List.all_map,
    List.any_map, List.length_map, Function.comp_def, blankMap, opens, closes,
    endsIndented_dropTrailing, Bool.and_true, Bool.not_false, List.all_eq_true,
    Bool.or_eq_true, Bool.and_eq_true, beq_iff_eq]
  refine ⟨by simp, margin.imp_right fun found => ?_⟩
  obtain ⟨line, member, edge⟩ := List.any_eq_true.mp found
  simp only [Bool.and_eq_true, Bool.not_eq_true'] at edge
  refine List.any_eq_true.mpr ⟨line, member, ?_⟩
  simp [edge.1, startsIndented_dropTrailing edge.2]

theorem areDedented_dedentLines {lines : List (List Char)} (nonempty : dedentLines lines ≠ []) :
    areDedented (dedentLines lines) = true := by
  rw [dedentLines_eq] at nonempty ⊢
  have remains : textLines lines ≠ [] := by
    intro none
    rw [none] at nonempty
    exact nonempty rfl
  exact areDedented_trimmed (textLines_opens remains) (textLines_closes remains)
    (margin_textLines remains)

theorem mem_dedentLines {lines : List (List Char)} {line : List Char}
    (member : line ∈ dedentLines lines) : ∃ origin ∈ lines, ∀ c ∈ line, c ∈ origin := by
  obtain ⟨untrimmed, kept, rfl⟩ := List.mem_map.mp member
  have shifted : untrimmed ∈ shift lines :=
    mem_of_dropTrailing ((List.dropWhile_sublist isBlank).mem kept)
  cases lines with
  | nil => cases shifted
  | cons first rest =>
      rcases List.mem_cons.mp shifted with rfl | behind
      · exact ⟨untrimmed, List.mem_cons_self, fun c inside => mem_of_dropTrailing inside⟩
      · obtain ⟨origin, found, rfl⟩ := List.mem_map.mp behind
        refine ⟨origin, List.mem_cons_of_mem first found, fun c inside => ?_⟩
        exact List.mem_of_mem_drop (mem_of_dropTrailing inside)

end GraphQL.BlockString

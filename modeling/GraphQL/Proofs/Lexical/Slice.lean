import GraphQL.Proofs.Lexical.Closing
import GraphQL.Proofs.Lexical.Lexeme

/-!
What a reading takes of a text. Of all lexemes only block strings go beyond their line, and
that holds of readings that fail as well. The slice that a lexeme was read from shows which
lexeme it is: it alone reads as the same one.
-/

namespace GraphQL.Lexical

open BlockString (delimiter)

/-! Numbers, whether or not they are read to their end. -/

/-- A part that is taken from the front of a text holds no line break, and what it leaves is
what stands behind it. -/
structure Takes (text : List Char) (reading : Reading Part) : Prop where
  onLine : OnLine (text.take reading.size)
  leaves : ∀ part, reading.outcome = .ok part → text.drop reading.size = part.2

namespace Takes

variable {text : List Char} {reading : Reading Part}

theorem none (found : List Char) (text : List Char) : Takes text (.done 0 (found, text)) :=
  ⟨onLine_nil, by rintro _ ⟨⟩; rfl⟩

theorem one {c : Char} (plain : isLineBreak c = false) (found rest : List Char) :
    Takes (c :: rest) (.done 1 (found, rest)) :=
  ⟨onLine_cons.mpr ⟨plain, onLine_nil⟩, by rintro _ ⟨⟩; rfl⟩

theorem fail (fault : Fault) : Takes text (.fail fault) :=
  ⟨onLine_nil, by rintro _ ⟨⟩⟩

theorem behind {c : Char} (plain : isLineBreak c = false) (takes : Takes text reading) :
    Takes (c :: text) (reading.behind 1) where
  onLine := by
    rw [Reading.behind, Nat.add_comm, List.take_succ_cons]
    exact onLine_cons.mpr ⟨plain, takes.onLine⟩
  leaves part done := by
    rw [Reading.behind, Nat.add_comm, List.drop_succ_cons]
    exact takes.leaves part done

theorem map (takes : Takes text reading) {change : Part → Part}
    (keeps : ∀ part, (change part).2 = part.2) : Takes text (reading.map change) where
  onLine := takes.onLine
  leaves part done := by
    cases outcome : reading.outcome with
    | error fault => simp [Reading.map, outcome, Except.map] at done
    | ok inner =>
        obtain rfl : change inner = part := by
          simpa [Reading.map, outcome, Except.map] using done
        rw [keeps]
        exact takes.leaves inner outcome

theorem onLine_bind (takes : Takes text reading) {next : Part → Reading α}
    (onward : ∀ part, reading.outcome = .ok part → OnLine (part.2.take (next part).size)) :
    OnLine (text.take (reading >>= next).size) := by
  simp only [bind, Reading.andThen]
  cases outcome : reading.outcome with
  | error fault => exact takes.onLine
  | ok part =>
      simp only [Reading.behind, List.take_add, takes.leaves part outcome]
      exact onLine_append.mpr ⟨takes.onLine, onward part outcome⟩

theorem bind (takes : Takes text reading) {next : Part → Reading Part}
    (onward : ∀ part, reading.outcome = .ok part → Takes part.2 (next part)) :
    Takes text (reading >>= next) where
  onLine := takes.onLine_bind fun part done => (onward part done).onLine
  leaves last done := by
    simp only [Bind.bind, Reading.andThen] at done ⊢
    cases outcome : reading.outcome with
    | error fault => simp [outcome] at done
    | ok part =>
        simp only [outcome, Reading.behind] at done ⊢
        rw [← List.drop_drop, takes.leaves part outcome]
        exact (onward part outcome).leaves last done

end Takes

theorem onLine_takeWhile {p : Char → Bool} (plain : ∀ c, p c = true → isLineBreak c = false)
    (text : List Char) : OnLine (text.takeWhile p) := fun c member =>
  plain c (List.all_eq_true.mp List.all_takeWhile c member)

theorem take_length_takeWhile (p : Char → Bool) (text : List Char) :
    text.take (text.takeWhile p).length = text.takeWhile p :=
  (List.prefix_iff_eq_take.mp (List.takeWhile_prefix p)).symm

theorem not_isLineBreak_of_isNameContinue {c : Char} (continues : isNameContinue c = true) :
    isLineBreak c = false := by
  simp only [isLineBreak, Bool.or_eq_false_iff, beq_eq_false_iff_ne]
  constructor <;> rintro rfl <;> exact absurd continues (by decide)

theorem not_isLineBreak_of_ofChar {c : Char} {mark : Punctuator}
    (isMark : Punctuator.ofChar? c = some mark) : isLineBreak c = false := by
  obtain ⟨_, _, _, _, _, kept⟩ := ofChar_some isMark
  simp only [Scan.isIgnored, Bool.or_eq_false_iff] at kept
  exact kept.1.2

theorem takes_digits (text : List Char) : Takes text (digits text) := by
  unfold digits
  split
  · exact .fail _
  · refine ⟨?_, ?_⟩
    · simp only [Reading.done, take_length_takeWhile]
      exact onLine_takeWhile
        (fun c digit => not_isLineBreak_of_isNameContinue (isNameContinue_of_isDigit digit)) text
    · rintro _ ⟨⟩
      exact drop_length_takeWhile _ text

theorem takes_minus (text : List Char) : Takes text (minus text) := by
  unfold minus
  split
  · exact .one (by decide) _ _
  · exact .none _ _

theorem takes_wholePart (text : List Char) : Takes text (wholePart text) := by
  unfold wholePart
  split
  · rename_i c rest
    split
    · exact ⟨onLine_cons.mpr ⟨by decide, onLine_nil⟩, by rintro _ ⟨⟩⟩
    · exact .one (by decide) _ _
  · exact .one (by decide) _ _
  · exact takes_digits text

theorem takes_fractionPart (text : List Char) : Takes text (fractionPart text) := by
  unfold fractionPart
  split
  · refine .behind (by decide) ((takes_digits _).map ?_)
    rintro ⟨found, left⟩
    rfl
  · exact .none _ _

theorem takes_exponentSign (text : List Char) : Takes text (exponentSign text) := by
  unfold exponentSign
  split
  · exact .one (by decide) _ _
  · exact takes_minus text

theorem takes_exponentPart (text : List Char) : Takes text (exponentPart text) := by
  unfold exponentPart
  split
  · exact .none _ _
  split
  · rename_i c rest mark
    have plain : isLineBreak c = false := by
      rcases mark with rfl | rfl <;> decide
    refine .behind plain ((takes_exponentSign rest).bind fun sign _ => ?_)
    refine (takes_digits sign.2).bind fun found _ => .none _ _
  · exact .none _ _

theorem number_onLine (text : List Char) : OnLine (text.take (number text).size) := by
  unfold number
  refine (takes_minus text).onLine_bind fun sign _ => ?_
  refine (takes_wholePart _).onLine_bind fun whole _ => ?_
  refine (takes_fractionPart _).onLine_bind fun fraction _ => ?_
  refine (takes_exponentPart _).onLine_bind fun exponent _ => ?_
  dsimp only
  split <;> exact onLine_nil

theorem lexeme_onLine {text : List Char} (plain : ¬delimiter <+: text) :
    OnLine (text.take (lexeme text).size) := by
  cases text with
  | nil => exact onLine_nil
  | cons c rest =>
      have first {size : Nat} (sameLine : isLineBreak c = false)
          (others : OnLine (rest.take size)) : OnLine ((c :: rest).take (1 + size)) := by
        rw [Nat.add_comm, List.take_succ_cons]
        exact onLine_cons.mpr ⟨sameLine, others⟩
      cases isMark : Punctuator.ofChar? c with
      | some mark =>
          simp only [lexeme, isMark]
          exact onLine_cons.mpr ⟨not_isLineBreak_of_ofChar isMark, onLine_nil⟩
      | none =>
          simp only [lexeme, isMark]
          split
          · rename_i sign
            refine first (by rw [sign]; decide) ?_
            simp only [comment, Reading.done, take_length_takeWhile]
            exact onLine_takeWhile (fun d sameLine => by simpa using sameLine) rest
          split
          · rename_i dot
            rw [dot]
            unfold spread
            split
            · have dot {rest : List Char} (others : OnLine rest) : OnLine ('.' :: rest) :=
                onLine_cons.mpr ⟨by decide, others⟩
              exact dot (dot (dot onLine_nil))
            · exact onLine_nil
            · exact onLine_nil
          split
          · rename_i quote
            unfold quoted
            split
            · rename_i tail
              exact absurd ⟨tail, by rw [quote]; rfl⟩ plain
            · exact first (by rw [quote]; decide) (quotedBody_onLine onLine_nil)
          split
          · simp only [name, Reading.done, take_length_takeWhile]
            exact onLine_takeWhile (fun d => not_isLineBreak_of_isNameContinue) _
          split
          · exact number_onLine _
          split <;> exact onLine_nil

end GraphQL.Lexical

namespace GraphQL

/-- The texts that a lexeme can be read from. -/
def Lexeme.IsReadFrom (slice : List Char) : Lexeme → Prop
  | .sof | .eof => slice = []
  | .punctuator mark => slice = mark.text.toList
  | .name text | .int text | .float text => slice = text.toList
  | .comment text => slice = '#' :: text.toList
  | .string _ => ∃ inner, slice = '"' :: (inner ++ ['"'])
  | .blockString _ =>
      ∃ inner, slice = BlockString.delimiter ++ (inner ++ BlockString.delimiter)

namespace Lexical

open BlockString (delimiter)

/-- A text in front of which a lexeme was read: the slice that was taken, and what stands behind
it. With less of that, the slice still reads as the same lexeme. -/
structure Sliced (text : List Char) (found : Lexeme) (slice rest : List Char) : Prop where
  whole : text = slice ++ rest
  form : found.IsReadFrom slice
  cut : ∀ other, other <+: rest → lexeme (slice ++ other) = .done slice.length found
  ends : found.isComment = true → Halts (fun c => !isLineBreak c) rest

theorem Sliced.alone {text slice rest : List Char} {found : Lexeme}
    (sliced : Sliced text found slice rest) : lexeme slice = .done slice.length found := by
  have alone := sliced.cut [] (List.nil_prefix)
  rwa [List.append_nil] at alone

theorem not_isIgnored_of_lexeme {c : Char} {rest : List Char} {size : Nat} {found : Lexeme}
    (read : lexeme (c :: rest) = .done size found) : Scan.isIgnored c = false := by
  refine Bool.eq_false_iff.mpr fun ignored => ?_
  simp only [Scan.isIgnored, isLineBreak, Bool.or_eq_true, beq_iff_eq] at ignored
  rcases ignored with (((rfl | rfl) | rfl) | rfl | rfl) | rfl <;> cases read

theorem Sliced.begins {text slice rest : List Char} {found : Lexeme}
    (sliced : Sliced text found slice rest) (more : found ≠ .eof) :
    ∃ c others, slice = c :: others ∧ Scan.isIgnored c = false := by
  have alone := sliced.alone
  cases slice with
  | nil =>
      cases alone
      exact absurd rfl more
  | cons c others => exact ⟨c, others, rfl, not_isIgnored_of_lexeme alone⟩

theorem sliced_mark {c : Char} {mark : Punctuator}
    (isMark : Punctuator.ofChar? c = some mark) (rest : List Char) :
    Sliced (c :: rest) (.punctuator mark) [c] rest where
  whole := rfl
  form := (ofChar_some isMark).1.symm
  cut other _ := by
    simp only [List.singleton_append, lexeme, isMark]
    rfl
  ends := by rintro ⟨⟩

theorem sliced_comment (rest : List Char) :
    Sliced ('#' :: rest) (.comment (String.ofList (rest.takeWhile fun c => !isLineBreak c)))
      ('#' :: rest.takeWhile fun c => !isLineBreak c) (rest.dropWhile fun c => !isLineBreak c) where
  whole := by rw [List.cons_append, List.takeWhile_append_dropWhile]
  form := by simp [Lexeme.IsReadFrom]
  cut other cut := by
    have sameLine : ∀ c ∈ rest.takeWhile fun c => !isLineBreak c, (!isLineBreak c) = true :=
      List.all_eq_true.mp List.all_takeWhile
    have again := takeWhile_halts sameLine ((halts_dropWhile rest).cut cut)
    show ((comment ((rest.takeWhile fun c => !isLineBreak c) ++ other)).behind 1) = _
    simp only [comment, again, Reading.behind_done, List.length_cons, Nat.add_comm]
  ends _ := halts_dropWhile rest

theorem quoted_string {rest : List Char} (single : ∀ tail, rest = '"' :: '"' :: tail → False) :
    quoted rest =
      ((quotedBody 0 rest).map fun value => .string (String.ofList value)).behind 1 := by
  unfold quoted
  split
  · exact absurd rfl (single _)
  · rfl

theorem lexeme_quoted {rest : List Char} (single : ∀ tail, rest = '"' :: '"' :: tail → False) :
    lexeme ('"' :: rest) =
      ((quotedBody 0 rest).map fun value => .string (String.ofList value)).behind 1 :=
  quoted_string single

theorem sliced_quoted {rest : List Char} {size : Nat} {found : Lexeme}
    (read : quoted rest = .done size found) :
    ∃ slice left, Sliced ('"' :: rest) found slice left ∧ size = slice.length := by
  have outcome : (quoted rest).outcome = .ok found := by rw [read]; rfl
  by_cases triple : ∃ tail, rest = '"' :: '"' :: tail
  · obtain ⟨text, rfl⟩ := triple
    obtain ⟨lines, body, rfl⟩ := Reading.outcome_map outcome
    obtain ⟨inner, left, rfl, closes⟩ := blockBody_ok body
    refine ⟨delimiter ++ (inner ++ delimiter), left,
      ⟨by simp [delimiter], ⟨inner, rfl⟩, fun other _ => ?_, by rintro ⟨⟩⟩, ?_⟩
    · rw [List.append_assoc, List.append_assoc, lexeme_delimiter, closes, Reading.map_done,
        Reading.behind_done]
      congr 1
      simp only [List.length_append, delimiter, List.length_cons, List.length_nil]
    · simp only [quoted, closes, Reading.map_done, Reading.behind_done] at read
      have taken : 3 + (inner.length + 3) = size := congrArg Reading.size read
      simp only [List.length_append, delimiter, List.length_cons, List.length_nil]
      omega
  · have single : ∀ tail, rest = '"' :: '"' :: tail → False := fun tail same => triple ⟨tail, same⟩
    rw [quoted_string single] at outcome read
    obtain ⟨value, body, rfl⟩ := Reading.outcome_map outcome
    obtain ⟨inner, left, rfl, quotes⟩ := quotes_of_quotedBody body
    have closes := quotes.quotedBody_eq
    refine ⟨'"' :: (inner ++ ['"']), left,
      ⟨by simp, ⟨inner, rfl⟩, fun other cut => ?_, by rintro ⟨⟩⟩, ?_⟩
    · have closed : ∀ tail, inner ++ '"' :: other = '"' :: '"' :: tail → False := by
        intro tail same
        obtain ⟨behind, rfl⟩ := cut
        refine single (tail ++ behind) ?_
        rw [← List.cons_append, ← List.append_assoc, same]
        rfl
      rw [List.cons_append, List.append_assoc]
      show quoted (inner ++ '"' :: other) = _
      rw [quoted_string closed, closes, Reading.map_done, Reading.behind_done]
      congr 1
      simp only [List.length_append, List.length_cons, List.length_nil]
      omega
    · rw [closes, Reading.map_done, Reading.behind_done] at read
      have taken : 1 + (inner.length + 1) = size := congrArg Reading.size read
      simp only [List.length_append, List.length_cons, List.length_nil]
      omega

theorem sliced_name {c : Char} (starts : isNameStart c = true) (rest : List Char) :
    Sliced (c :: rest) (.name (String.ofList ((c :: rest).takeWhile isNameContinue)))
      ((c :: rest).takeWhile isNameContinue) ((c :: rest).dropWhile isNameContinue) where
  whole := List.takeWhile_append_dropWhile.symm
  form := by simp [Lexeme.IsReadFrom]
  cut other cut := by
    have isName : isName ((c :: rest).takeWhile isNameContinue) = true := by
      rw [List.takeWhile_cons_of_pos (isNameContinue_of_isNameStart starts), Lexical.isName, starts,
        Bool.true_and]
      exact List.all_takeWhile
    exact lexeme_name isName ((halts_dropWhile (c :: rest)).cut cut)
  ends := by rintro ⟨⟩

theorem continuesNumber_cut {text other : List Char} (ends : continuesNumber text = false)
    (cut : other <+: text) : continuesNumber other = false := by
  obtain ⟨left, rfl⟩ := cut
  cases other with
  | nil => rfl
  | cons c rest => exact ends

theorem sliced_parts {parts : NumberParts} (valid : parts.Valid) {rest : List Char}
    (halts : Halts Char.isDigit rest) (ends : continuesNumber rest = false) :
    Sliced (parts.text ++ rest) parts.lexeme parts.text rest where
  whole := rfl
  form := by
    unfold NumberParts.lexeme
    split <;> simp [Lexeme.IsReadFrom]
  cut other cut := lexeme_parts valid (halts.cut cut) (continuesNumber_cut ends cut)
  ends := by
    unfold NumberParts.lexeme
    split <;> rintro ⟨⟩

theorem lexeme_sliced {text : List Char} {size : Nat} {found : Lexeme}
    (read : lexeme text = .done size found) :
    ∃ slice rest, Sliced text found slice rest ∧ size = slice.length := by
  cases text with
  | nil =>
      cases read
      refine ⟨[], [], ⟨rfl, rfl, fun other cut => ?_, by rintro ⟨⟩⟩, rfl⟩
      obtain rfl := List.prefix_nil.mp cut
      rfl
  | cons c rest =>
      revert read
      cases isMark : Punctuator.ofChar? c with
      | some mark =>
          simp only [lexeme, isMark]
          rintro ⟨⟩
          exact ⟨_, _, sliced_mark isMark rest, rfl⟩
      | none =>
          simp only [lexeme, isMark]
          split
          · rename_i sign
            rintro ⟨⟩
            subst sign
            exact ⟨_, _, sliced_comment rest, Nat.add_comm _ _⟩
          split
          · rename_i dot
            subst dot
            unfold spread
            split
            · rintro ⟨⟩
              exact ⟨['.', '.', '.'], _, ⟨rfl, rfl, fun _ _ => rfl, by rintro ⟨⟩⟩, rfl⟩
            · rintro ⟨⟩
            · rintro ⟨⟩
          split
          · rename_i quote
            subst quote
            exact sliced_quoted
          split
          · rename_i starts
            rintro ⟨⟩
            exact ⟨_, _, sliced_name starts rest, rfl⟩
          split
          · intro read
            obtain ⟨parts, valid, rfl, rfl, left, whole, halts, ends⟩ := number_ok read
            exact ⟨_, left, whole ▸ sliced_parts valid halts ends, rfl⟩
          split <;> rintro ⟨⟩

theorem Sliced.onLine {text slice rest : List Char} {found : Lexeme}
    (sliced : Sliced text found slice rest) (other : found.kind ≠ .blockString) : OnLine slice := by
  have plain : ¬delimiter <+: slice := by
    rintro ⟨tail, rfl⟩
    have outcome := congrArg Reading.outcome sliced.alone
    rw [lexeme_delimiter] at outcome
    obtain ⟨lines, _, rfl⟩ := Reading.outcome_map outcome
    exact other rfl
  have taken := lexeme_onLine plain
  rw [sliced.alone] at taken
  rwa [Reading.done, List.take_length] at taken

end Lexical

end GraphQL

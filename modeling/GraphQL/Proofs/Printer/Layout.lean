import GraphQL.Printer.Layout
import GraphQL.Proofs.Lexed
import GraphQL.Proofs.Spelling

/-!
Texts that spell lexemes, however far they are indented and whatever text that keeps apart
follows. What the layout does to parts, such as joining, wrapping and indenting them, is
followed once here, so that the printed form of a node only has to be put together.
-/

namespace GraphQL

open Lexical (Stops)

def AllProper (lexemes : List Lexeme) : Prop := ∀ found ∈ lexemes, found.isProper = true

@[simp] theorem allProper_nil : AllProper [] := by
  intro found member
  cases member

@[simp] theorem allProper_cons {found : Lexeme} {rest : List Lexeme} :
    AllProper (found :: rest) ↔ found.isProper = true ∧ AllProper rest := List.forall_mem_cons

@[simp] theorem allProper_append {left right : List Lexeme} :
    AllProper (left ++ right) ↔ AllProper left ∧ AllProper right := List.forall_mem_append

theorem allProper_flatMap {spell : α → List Lexeme} {items : List α} :
    AllProper (items.flatMap spell) ↔ ∀ item ∈ items, AllProper (spell item) := by
  simp only [AllProper, List.mem_flatMap]
  constructor
  · intro proper item member found inside
    exact proper found ⟨item, member, inside⟩
  · rintro proper found ⟨item, member, inside⟩
    exact proper item member found inside

/-- A text that reads as these lexemes, and is empty where there are none. -/
structure Spells (text : List Char) (lexemes : List Lexeme) : Prop where
  read : ∀ (width : Nat) {rest : List Char} {tail : List Lexeme}, Stops rest → Lexed rest tail →
    Lexed (indentBy width text ++ rest) (lexemes ++ tail)
  empty : lexemes = [] → text = []

namespace Spells

variable {text left right : List Char} {lexemes first second : List Lexeme}

theorem nil : Spells [] [] := ⟨fun _ _ _ _ lexed => lexed, fun _ => rfl⟩

theorem eq_nil (spells : Spells text lexemes) : text = [] ↔ lexemes = [] := by
  constructor
  · rintro rfl
    have whole := spells.read 0 Lexical.stops_nil .nil
    simpa using whole.unique .nil
  · exact spells.empty

theorem lexed (spells : Spells text lexemes) : Lexed text lexemes := by
  have whole := spells.read 0 Lexical.stops_nil .nil
  rwa [List.append_nil, List.append_nil, indentBy_zero] at whole

theorem append (starts : Spells left first) (ends : Spells right second) (stops : Stops right) :
    Spells (left ++ right) (first ++ second) where
  read width rest tail apart lexed := by
    have behind := ends.read width apart lexed
    rw [indentBy_append, List.append_assoc, List.append_assoc]
    exact starts.read width (Lexical.stops_append (stops.indentBy width) apart) behind
  empty none := by
    obtain ⟨noFirst, noSecond⟩ := List.append_eq_nil_iff.mp none
    rw [starts.empty noFirst, ends.empty noSecond]
    rfl

theorem written {found : Lexeme} (proper : found.isProper = true) :
    Spells found.written [found] where
  read width _ _ stops lexed := .written proper width stops lexed
  empty none := absurd none (List.cons_ne_nil _ _)

theorem mark {c : Char} {mark : Punctuator} (isMark : Punctuator.ofChar? c = some mark)
    (spells : Spells text lexemes) : Spells (c :: text) (.punctuator mark :: lexemes) where
  read width _ _ stops lexed := by
    obtain ⟨same, _, _, _, _, _⟩ := Lexical.ofChar_some isMark
    have sameLine : c ≠ '\n' := by
      rintro rfl
      cases isMark
    have whole := Lexed.mark mark (spells.read width stops lexed)
    rw [same] at whole
    rw [indentBy_cons sameLine]
    exact whole
  empty none := absurd none (List.cons_ne_nil _ _)

theorem ellipsis (spells : Spells text lexemes) :
    Spells ("...".toList ++ text) (.punctuator .ellipsis :: lexemes) where
  read width _ _ stops lexed := by
    have whole := Lexed.mark .ellipsis (spells.read width stops lexed)
    rw [indentBy_append, indentBy_line (by decide), List.append_assoc]
    exact whole
  empty none := absurd none (List.cons_ne_nil _ _)

theorem gap {between : List Char} (ignored : between.all Scan.isIgnored = true)
    (some' : lexemes ≠ []) (spells : Spells text lexemes) : Spells (between ++ text) lexemes where
  read width _ _ stops lexed := by
    have behind := spells.read width stops lexed
    have all : ∀ c ∈ indentBy width between, Scan.isIgnored c = true := by
      intro c member
      rcases mem_indentBy member with found | rfl
      · exact List.all_eq_true.mp ignored c found
      · rfl
    rw [indentBy_append, List.append_assoc]
    exact .ignoreAll all behind
  empty none := absurd none some'

theorem spaced {c : Char} (ignored : Scan.isIgnored c = true) (starts : Spells left first)
    (ends : Spells right second) (some' : first ≠ []) :
    Spells (left ++ c :: right) (first ++ second) where
  read width rest tail apart lexed := by
    have stops : Stops (c :: right) := Lexical.stops_cons (by simp [Lexical.isStop, ignored]) right
    have behind : Lexed (indentBy width (c :: right) ++ rest) (second ++ tail) := by
      have all : ∀ d ∈ indentBy width [c], Scan.isIgnored d = true := by
        intro d member
        rcases mem_indentBy member with found | rfl
        · rwa [List.mem_singleton.mp found]
        · rfl
      rw [← List.singleton_append, indentBy_append, List.append_assoc]
      exact .ignoreAll all (ends.read width apart lexed)
    rw [indentBy_append, List.append_assoc, List.append_assoc]
    exact starts.read width (Lexical.stops_append (stops.indentBy width) apart) behind
  empty none := absurd (List.append_eq_nil_iff.mp none).1 some'

theorem space (starts : Spells left first) (ends : Spells right second) (some' : first ≠ []) :
    Spells (left ++ ' ' :: right) (first ++ second) := starts.spaced rfl ends some'

theorem gap_space (spells : Spells text lexemes) (some' : lexemes ≠ []) :
    Spells (' ' :: text) lexemes :=
  @gap text lexemes [' '] (by decide) some' spells

theorem indented (spells : Spells text lexemes) (margin : Nat) :
    Spells (indentBy margin text) lexemes where
  read width _ _ stops lexed := by
    rw [indentBy_indentBy]
    exact spells.read (width + margin) stops lexed
  empty none := by
    rw [spells.empty none]
    rfl

theorem word {text : String} (isName : Lexical.isName text.toList = true) :
    Spells text.toList [.name text] :=
  @written (.name text) isName

end Spells

namespace Layout

open Spells

variable {text : List Char} {lexemes : List Lexeme}

theorem wrap_text (text' : text ≠ []) (opening closing : List Char) :
    wrap opening text closing = opening ++ text ++ closing := by
  simp [wrap, text']

theorem stops_wrap {c : Char} (stop : Lexical.isStop c = true) (opening text closing : List Char) :
    Stops (wrap (c :: opening) text closing) := by
  unfold wrap
  split
  · exact Lexical.stops_nil
  · exact Lexical.stops_cons stop _

theorem spells_wrap_gap {between : List Char} (ignored : between.all Scan.isIgnored = true)
    (spells : Spells text lexemes) : Spells (wrap between text []) lexemes := by
  by_cases none : text = []
  · subst none
    exact spells
  · rw [wrap_text none, List.append_nil]
    exact spells.gap ignored fun no => none (spells.empty no)

theorem spells_wrap_space (spells : Spells text lexemes) : Spells (wrap [' '] text []) lexemes :=
  spells_wrap_gap (by decide) spells

theorem spells_wrap_behind {c : Char} (ignored : Scan.isIgnored c = true)
    (spells : Spells text lexemes) {more : List Char} {others : List Lexeme}
    (follows : Spells more others) : Spells (wrap [] text [c] ++ more) (lexemes ++ others) := by
  by_cases none : text = []
  · rw [none, spells.eq_nil.mp none]
    exact follows
  rw [wrap_text none, List.nil_append, List.append_assoc]
  exact spells.spaced ignored follows fun no => none (spells.empty no)

theorem spells_enclose {o c : Char} {opening closing : Punctuator}
    (isOpening : Punctuator.ofChar? o = some opening)
    (isClosing : Punctuator.ofChar? c = some closing) (before behind : List Char)
    (ignoredBefore : before.all Scan.isIgnored = true)
    (ignoredBehind : behind.all Scan.isIgnored = true) (spells : Spells text lexemes) :
    Spells (wrap (o :: before) text (behind ++ [c])) (enclose opening lexemes closing) := by
  by_cases none : text = []
  · rw [none, spells.eq_nil.mp none]
    exact .nil
  have some' : lexemes ≠ [] := fun no => none (spells.empty no)
  have close : Spells (behind ++ [c]) [.punctuator closing] :=
    (Spells.nil.mark isClosing).gap ignoredBehind (List.cons_ne_nil _ _)
  have apart : Stops (behind ++ [c]) := by
    cases behind with
    | nil => exact Lexical.stops_cons (by simp [Lexical.isStop, isClosing]) []
    | cons d rest =>
        have ignored := List.all_eq_true.mp ignoredBehind d List.mem_cons_self
        exact Lexical.stops_cons (by simp [Lexical.isStop, ignored]) _
  have inner := (spells.append close apart).gap ignoredBefore (by simp)
  have whole := inner.mark isOpening
  rw [wrap_text none, enclose, if_neg (by simpa using some')]
  simpa using whole

theorem spells_indent (spells : Spells text lexemes) : Spells (indent text) lexemes :=
  spells_wrap_gap (by decide) (spells.indented 2)

inductive Parts : List (List Char) → List Lexeme → Prop
  | nil : Parts [] []
  | cons {part : List Char} {parts : List (List Char)} {first rest : List Lexeme}
      (spells : Spells part first) (others : Parts parts rest) :
        Parts (part :: parts) (first ++ rest)

theorem Parts.map {print : α → List Char} {spell : α → List Lexeme} {items : List α}
    (each : ∀ item ∈ items, Spells (print item) (spell item)) :
    Parts (items.map print) (items.flatMap spell) := by
  induction items with
  | nil => exact .nil
  | cons item rest ih =>
      have others := ih fun next member => each next (List.mem_cons_of_mem item member)
      exact .cons (each item List.mem_cons_self) others

theorem join_empty (separator : List Char) (parts : List (List Char)) :
    join separator ([] :: parts) = join separator parts := rfl

theorem join_eq_nil {separator : List Char} {parts : List (List Char)} :
    join separator parts = [] ↔ parts.filter (fun part => !part.isEmpty) = [] := by
  unfold join
  cases kept : parts.filter fun part => !part.isEmpty with
  | nil => simp
  | cons first rest =>
      have text : first ≠ [] := by
        have member : first ∈ parts.filter fun part => !part.isEmpty := by simp [kept]
        simpa using (List.mem_filter.mp member).2
      cases rest with
      | nil => simpa using text
      | cons next others => simp [List.intercalate_cons_cons, text]

theorem join_cons {separator part : List Char} (text : part ≠ []) (parts : List (List Char)) :
    join separator (part :: parts) =
      if join separator parts = [] then part else part ++ (separator ++ join separator parts) := by
  have kept : (part :: parts).filter (fun part => !part.isEmpty) =
      part :: parts.filter fun part => !part.isEmpty :=
    List.filter_cons_of_pos (by simpa using text)
  split
  · rename_i none
    rw [join, kept, join_eq_nil.mp none, List.intercalate_singleton]
  · rename_i some'
    rw [join_eq_nil] at some'
    rw [join, kept, List.intercalate_cons_of_ne_nil some', List.append_assoc]
    rfl

theorem spells_join {c : Char} {others : List Char} {parts : List (List Char)}
    (ignored : (c :: others).all Scan.isIgnored = true) (each : Parts parts lexemes) :
    Spells (join (c :: others) parts) lexemes := by
  induction each with
  | nil => exact .nil
  | @cons part parts first rest spells _ ih =>
      by_cases none : part = []
      · rw [none, spells.eq_nil.mp none, join_empty]
        exact ih
      rw [join_cons none]
      split
      · rename_i noOthers
        rw [ih.eq_nil.mp noOthers, List.append_nil]
        exact spells
      · rename_i some'
        have stop : Lexical.isStop c = true := by
          simp [Lexical.isStop, List.all_eq_true.mp ignored c List.mem_cons_self]
        exact spells.append (ih.gap ignored fun no => some' (ih.empty no))
          (Lexical.stops_cons stop _)

section
variable {parts : List (List Char)} (each : Parts parts lexemes)
include each

theorem spells_commas : Spells (commas parts) lexemes := spells_join (by decide) each

theorem spells_words : Spells (words parts) lexemes := spells_join (by decide) each

theorem spells_lines : Spells (join ['\n'] parts) lexemes := spells_join (by decide) each

end

theorem spells_block {items : List (List Char)} (each : Parts items lexemes) :
    Spells (block items) (enclose .braceOpen lexemes .braceClose) :=
  spells_enclose rfl rfl ['\n'] ['\n'] (by decide) (by decide)
    (spells_indent (spells_lines each))

end Layout

end GraphQL

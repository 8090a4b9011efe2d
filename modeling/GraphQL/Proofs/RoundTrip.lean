import GraphQL.Proofs.LeftOut
import GraphQL.Proofs.Parser.Finds.Document
import GraphQL.Proofs.Parser.Reads.Document
import GraphQL.Proofs.Parser.Text
import GraphQL.Proofs.Printer.Document

/-!
Documents, printed and parsed again. Printing looks at each definition alone, while the grammar
lets a definition go on with braces that follow it. So a document comes back exactly if no
definition that lacks its braces stands in front of a query that begins with them.
-/

namespace GraphQL

open GraphQL.Parser

/-- Definitions as a text spells them, each with or without what may be left out. -/
def spellings (written : List (Definition × Bool)) : List Lexeme :=
  written.flatMap fun part => part.1.lexemes part.2

section
variable {options : Options} {levels : Nat} {definitions : List Definition} {used : List Lexeme}

theorem listed_spellings
    (listed : Listed (Definition.Fits options levels) .eof definitions used) :
    ∃ written, written.map Prod.fst = definitions ∧ used = spellings written ++ [.eof] := by
  induction listed with
  | @last definition used fit =>
      obtain ⟨full, rfl⟩ := fit.spelled
      exact ⟨[(definition, full)], rfl, by simp [spellings]⟩
  | @more definition used tail definitions next fit _ ih =>
      obtain ⟨full, rfl⟩ := fit.spelled
      obtain ⟨written, rfl, same⟩ := ih
      exact ⟨(definition, full) :: written, rfl, by simp [same, spellings]⟩

theorem listed_conforms
    (listed : Listed (Definition.Fits options levels) .eof definitions used) :
    definitions ≠ [] ∧ definitions.all (·.conforms options levels) = true := by
  induction listed with
  | last fit => exact ⟨List.cons_ne_nil _ _, by simp [fit.conforms]⟩
  | more fit _ ih => exact ⟨List.cons_ne_nil _ _, by simp [fit.conforms, ih.2]⟩

/-- Definitions that were read from a text that leaves nothing out are kept apart: where braces
open, the definition in front of them has braces of its own. -/
theorem listed_keptApart
    (listed : Listed (Definition.Fits options levels) .eof definitions used) :
    (definitions.flatMap (Definition.lexemes false) ++ [Lexeme.eof]).length ≤ used.length ∧
      (used.length ≤ (definitions.flatMap (Definition.lexemes false) ++ [Lexeme.eof]).length →
        used = definitions.flatMap (Definition.lexemes false) ++ [.eof] ∧
          keptApart definitions = true) := by
  induction listed with
  | @last definition used fit =>
      obtain ⟨full, rfl⟩ := fit.spelled
      have leaves := definition.leavesOut full
      have longer := leaves.length_le
      simp only [List.flatMap_cons, List.flatMap_nil, List.append_nil, List.length_append] at *
      refine ⟨by omega, ?_⟩
      intro short
      rw [leaves.eq_of_length_le (by omega)]
      exact ⟨rfl, rfl⟩
  | @more definition used tail definitions next fit listed ih =>
      obtain ⟨full, rfl⟩ := fit.spelled
      have leaves := definition.leavesOut full
      have longer := leaves.length_le
      obtain ⟨bound, exact'⟩ := ih
      simp only [List.flatMap_cons, List.append_assoc, List.length_append] at *
      refine ⟨by omega, ?_⟩
      intro short
      obtain ⟨behind, apart⟩ := exact' (by omega)
      refine ⟨by rw [leaves.eq_of_length_le (by omega), behind], ?_⟩
      cases definitions with
      | nil => rfl
      | cons second others =>
          have conforms := (listed_conforms listed).2
          simp only [List.all_cons, Bool.and_eq_true] at conforms
          obtain ⟨head, more, spelled, _, short⟩ := definition_opens false conforms.1
          obtain rfl : next = head := by
            rw [List.flatMap_cons, spelled] at behind
            exact (List.cons.inj behind).1
          rw [keptApart, apart, Bool.and_true, Bool.not_eq_true', Bool.and_eq_false_iff]
          by_cases lacks : definition.lacksBraces = true
          · right
            exact Bool.eq_false_iff.mpr fun isShort =>
              fit.ends lacks (short.mpr (by simp [isShort]))
          · left
            exact Bool.eq_false_iff.mpr lacks

end

theorem spellings_spelled (written : List (Definition × Bool)) : AllSpelled (spellings written) :=
  allSpelled_flatMap (fun part => part.1.spelled part.2) written

theorem Document.spelled (document : Document) : AllSpelled document.lexemes :=
  allSpelled_flatMap (Definition.spelled false) document.definitions

theorem Lexed.allProper {text : List Char} {lexemes : List Lexeme} (lexed : Lexed text lexemes) :
    AllProper (lexemes.filter fun found => !found.isComment) := by
  intro found member
  rw [List.mem_filter] at member
  rcases lexed.proper found member.1 with proper | comment
  · exact proper
  · simp [comment] at member

theorem Document.parse_ok {source : Source} {options : Options} {document : Document}
    (parsed : Document.parse source options = .ok document) :
    ∃ written all, written.map Prod.fst = document.definitions ∧ Lexed source.chars all ∧
      (all.filter fun found => !found.isComment) = spellings written ∧
      Listed (Definition.Fits options options.maxNestingDepth) .eof document.definitions
        (spellings written ++ [.eof]) ∧
      options.allowsLoc document.loc = true ∧
      ∀ limit, options.maxTokens = some limit → (spellings written).length ≤ limit := by
  obtain ⟨s', read⟩ := run_ok.mp parsed
  obtain ⟨used, moves, listed, allowed⟩ := document_reads rfl read
  obtain ⟨written, same, rfl⟩ := listed_spellings listed
  obtain ⟨all, lexed, kept⟩ := lexed_of_moves (spellings_spelled written) moves
  exact ⟨written, all, same, lexed, kept.symm, listed, allowed,
    few_ofSource (spellings_spelled written) moves⟩

theorem Document.chars_print (document : Document) (name : String) :
    Source.chars ⟨String.ofList document.print, name⟩ = document.print :=
  String.toList_ofList

/-- A document that conforms comes back from its printed form exactly if its definitions are
kept apart. -/
theorem Document.parse_print_iff {options : Options} (bare : options.noLocation = true)
    {document : Document} (conforms : document.conforms options = true)
    (proper : AllProper document.lexemes)
    (few : ∀ limit, options.maxTokens = some limit → document.lexemes.length ≤ limit)
    (name : String) :
    Document.parse ⟨String.ofList document.print, name⟩ options = .ok document ↔
      keptApart document.definitions = true := by
  have lexed := (Document.spells proper).lexed
  rw [← document.chars_print name] at lexed
  constructor
  · intro parsed
    obtain ⟨written, all, same, read, kept, listed, _⟩ := Document.parse_ok parsed
    rw [read.unique lexed, filter_spelled document.spelled] at kept
    rw [← kept] at listed
    exact ((listed_keptApart listed).2 (Nat.le_refl _)).2
  · intro apart
    simp only [Document.conforms, Bool.and_eq_true, Bool.not_eq_true',
      List.isEmpty_eq_false_iff] at conforms
    obtain ⟨⟨some', allOk⟩, locOk⟩ := conforms
    obtain ⟨s', moves⟩ := moves_ofSource lexed document.spelled few
    exact run_ok.mpr ⟨s', document_finds bare (ready_ofSource _ rfl rfl (Nat.le_refl _)) some' allOk
      (loc_none bare locOk) apart moves⟩

/-! Small documents without locations. -/

def bareOptions : Options := { Options.default with noLocation := true }

def bareName (text : String) : Name := ⟨text, none⟩

def aliasQuery (key field : String) : Definition :=
  .operation ⟨.query, none, [], [],
    ⟨[.field ⟨some (bareName key), bareName field, [], [], none, none⟩], none⟩, none⟩

def queryAlone : Document := ⟨[aliasQuery "a" "B"], none⟩

def typeAlone : Document := ⟨[.type ⟨none, bareName "T", [], .object [] [], none⟩], none⟩

def extensionAndQuery : Document :=
  ⟨[.schemaExtension ⟨[⟨bareName "d", [], none⟩], [], none⟩, aliasQuery "query" "Q"], none⟩

theorem ok_of_toOption {result : Except ε α} {value : α} (same : result.toOption = some value) :
    result = .ok value := by
  cases result with
  | error error => cases same
  | ok found => exact congrArg Except.ok (Option.some.inj same)

theorem Document.parse_print_queryAlone :
    Document.parse ⟨String.ofList queryAlone.print, Source.defaultName⟩ bareOptions =
      .ok queryAlone :=
  (Document.parse_print_iff rfl (by decide +kernel) (by unfold AllProper; decide +kernel)
    (fun _ limited => by cases limited) Source.defaultName).mpr rfl

/-- Not only types lack braces: behind the extension of a schema, the query is read as what the
extension adds. -/
theorem Document.parse_print_extensionAndQuery :
    extensionAndQuery.conforms bareOptions = true ∧ AllProper extensionAndQuery.lexemes ∧
      (extensionAndQuery.definitions.all fun
        | .type _ | .typeExtension _ => false
        | _ => true) = true ∧
      Document.parse ⟨String.ofList extensionAndQuery.print, Source.defaultName⟩ bareOptions ≠
        .ok extensionAndQuery := by
  refine ⟨by decide +kernel, by unfold AllProper; decide +kernel, rfl, ?_⟩
  intro same
  exact absurd (congrArg Except.toOption same) (by decide +kernel)

/-- A document that was parsed conforms, and its lexemes can be written. -/
theorem Document.conforms_of_parse {source : Source} {options : Options} {document : Document}
    (parsed : Document.parse source options = .ok document) :
    document.conforms options = true ∧ AllProper document.lexemes := by
  obtain ⟨written, all, same, lexed, kept, listed, allowed, _⟩ := Document.parse_ok parsed
  obtain ⟨some', allOk⟩ := listed_conforms listed
  constructor
  · simp [Document.conforms, some', allOk, allowed]
  · intro found member
    rw [Document.lexemes, ← same, List.flatMap_map] at member
    obtain ⟨part, isPart, inside⟩ := List.mem_flatMap.mp member
    have read : found ∈ spellings written :=
      List.mem_flatMap.mpr ⟨part, isPart, (part.1.leavesOut part.2).subset inside⟩
    rw [← kept] at read
    exact lexed.allProper found read

/-- Documents that were parsed, put together to one, come back from the printed form of that
one exactly if its definitions are kept apart. -/
theorem Document.parse_print_concat_iff {options : Options} (bare : options.noLocation = true)
    (unlimited : options.maxTokens = none) {documents : List Document} (some' : documents ≠ [])
    (parsed : ∀ document ∈ documents, ∃ source, Document.parse source options = .ok document)
    (name : String) :
    Document.parse ⟨String.ofList (Document.concat documents).print, name⟩ options =
        .ok (Document.concat documents) ↔
      keptApart (documents.flatMap Document.definitions) = true := by
  have each : ∀ document ∈ documents,
      document.conforms options = true ∧ AllProper document.lexemes := by
    intro document member
    obtain ⟨source, read⟩ := parsed document member
    exact Document.conforms_of_parse read
  have proper : AllProper (Document.concat documents).lexemes := by
    rw [Document.lexemes, Document.concat, List.flatMap_assoc, allProper_flatMap]
    exact fun document member => (each document member).2
  have conforms : (Document.concat documents).conforms options = true := by
    obtain ⟨first, rest, rfl⟩ := List.exists_cons_of_ne_nil some'
    have firstOk := (each first List.mem_cons_self).1
    simp only [Document.conforms, Bool.and_eq_true, Bool.not_eq_true',
      List.isEmpty_eq_false_iff] at firstOk ⊢
    refine ⟨⟨?_, ?_⟩, ?_⟩
    · simp [Document.concat, firstOk.1.1]
    · refine List.all_eq_true.mpr fun definition member => ?_
      obtain ⟨document, isPart, inside⟩ := List.mem_flatMap.mp member
      have conforms := (each document isPart).1
      simp only [Document.conforms, Bool.and_eq_true] at conforms
      exact List.all_eq_true.mp conforms.1.2 definition inside
    · simp [Document.concat, Options.allowsLoc]
  refine Document.parse_print_iff bare conforms proper ?_ name
  intro limit limited
  rw [unlimited] at limited
  cases limited

theorem Document.parse_print_concat_queryAlone :
    Document.parse ⟨String.ofList (Document.concat [queryAlone, typeAlone]).print,
        Source.defaultName⟩ bareOptions = .ok (Document.concat [queryAlone, typeAlone]) := by
  have parsed : ∀ document ∈ [queryAlone, typeAlone],
      ∃ source, Document.parse source bareOptions = .ok document := by
    intro document member
    simp only [List.mem_cons, List.not_mem_nil, or_false] at member
    rcases member with rfl | rfl
    · exact ⟨.ofBody "\x7b a: B \x7d", ok_of_toOption (by decide +kernel)⟩
    · exact ⟨.ofBody "type T", ok_of_toOption (by decide +kernel)⟩
  exact (Document.parse_print_concat_iff rfl rfl (List.cons_ne_nil _ _) parsed
    Source.defaultName).mpr rfl

/-- In the other order the query is read as the fields of the type. -/
theorem Document.parse_print_concat_typeAlone :
    Document.parse (.ofBody "type T") bareOptions = .ok typeAlone ∧
      Document.parse (.ofBody "\x7b a: B \x7d") bareOptions = .ok queryAlone ∧
      Document.parse ⟨String.ofList (Document.concat [typeAlone, queryAlone]).print,
          Source.defaultName⟩ bareOptions ≠ .ok (Document.concat [typeAlone, queryAlone]) := by
  refine ⟨ok_of_toOption (by decide +kernel), ok_of_toOption (by decide +kernel), ?_⟩
  intro same
  exact absurd (congrArg Except.toOption same) (by decide +kernel)

end GraphQL

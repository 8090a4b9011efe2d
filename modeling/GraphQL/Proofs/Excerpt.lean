import GraphQL.Proofs.Spans

/-!
Excerpts of a text, from the start of one token to the end of another. Lexing is local: what
stood around an excerpt does not change the lexemes that it reads as, so it has those of the
tokens between its ends.
-/

namespace GraphQL

open Lexical (Sliced)

/-- A text that reads as some lexemes in front of whatever `after` begins with. -/
def ReadsBefore (after text : List Char) (lexemes : List Lexeme) : Prop :=
  ∀ ⦃other : List Char⦄ ⦃tail : List Lexeme⦄, other <+: after → Lexed other tail →
    Lexed (text ++ other) (lexemes ++ tail)

namespace ReadsBefore

variable {after text text' : List Char} {lexemes lexemes' : List Lexeme}

theorem one {slice : List Char} {found : Lexeme}
    (sliced : Sliced (slice ++ after) found slice after) (more : found ≠ .eof) :
    ReadsBefore after slice [found] := fun other _ cut lexed =>
  lexed.cons (sliced.begins more) (sliced.cut other cut) more

theorem gap {between : List Char} (ignored : ∀ c ∈ between, Scan.isIgnored c = true)
    (reads : ReadsBefore after text lexemes) : ReadsBefore after (between ++ text) lexemes := by
  intro other tail cut lexed
  rw [List.append_assoc]
  exact .ignoreAll ignored (reads cut lexed)

theorem append (first : ReadsBefore (text' ++ after) text lexemes)
    (second : ReadsBefore after text' lexemes') :
    ReadsBefore after (text ++ text') (lexemes ++ lexemes') := by
  intro other tail cut lexed
  rw [List.append_assoc, List.append_assoc]
  exact first ((List.prefix_append_right_inj text').mpr cut) (second cut lexed)

theorem lexed (reads : ReadsBefore after text lexemes) : Lexed text lexemes := by
  have alone := reads List.nil_prefix .nil
  rwa [List.append_nil, List.append_nil] at alone

end ReadsBefore

namespace Grown

variable {source : Source} {behind : List Char} {tokens : List Token}

theorem front {more : List Token} (grown : Grown source true behind (tokens ++ more))
    (some' : tokens ≠ []) : ∃ earlier, Grown source true earlier tokens := by
  generalize isClean : true = clean at grown
  generalize isAll : tokens ++ more = all at grown
  induction grown generalizing more with
  | start =>
      rcases List.append_eq_singleton_iff.mp isAll with ⟨none, _⟩ | ⟨rfl, _⟩
      · exact absurd none some'
      · exact ⟨[], .start⟩
  | token grown goesOn ignored whole covers prev ih =>
      rcases List.eq_nil_or_concat more with rfl | ⟨others, last, rfl⟩
      · rw [List.append_nil] at isAll
        subst isClean
        exact ⟨_, isAll ▸ grown.token goesOn ignored whole covers prev⟩
      · rw [List.concat_eq_append, ← List.append_assoc] at isAll
        exact ih isClean (List.append_inj' isAll rfl).1
  | fault => cases isClean

theorem readsBefore {shown : List Token} {first : Token}
    (grown : Grown source true behind (tokens ++ shown)) (some' : tokens ≠ [])
    (isFirst : shown.head? = some first) (more : ∀ token ∈ shown, token.lexeme ≠ .eof) :
    ∃ before text after, behind = before ++ text ∧ source.chars = behind ++ after ∧
      first.start = byteLength before ∧
      (∀ last ∈ shown.getLast?, last.stop = byteLength behind) ∧
      ReadsBefore after text (shown.map Token.lexeme) := by
  generalize isClean : true = clean at grown
  generalize isAll : tokens ++ shown = all at grown
  -- One token after the other, the last of those shown first: what was read in front of it is read
  -- the same in front of less text.
  induction grown generalizing shown with
  | start =>
      rcases List.append_eq_singleton_iff.mp isAll with ⟨none, _⟩ | ⟨_, rfl⟩
      · exact absurd none some'
      · cases isFirst
  | @token _ earlier gap slice after _ token _ _ ignored whole covers _ ih =>
      rcases List.eq_nil_or_concat shown with rfl | ⟨others, last, rfl⟩
      · cases isFirst
      rw [List.concat_eq_append] at isFirst more isAll ⊢
      rw [← List.append_assoc] at isAll
      obtain ⟨before, same⟩ := List.append_inj' isAll rfl
      obtain rfl := List.singleton_inj.mp same
      have one := ReadsBefore.one covers.sliced (more last (by simp))
      have stop : ∀ token ∈ (others ++ [last]).getLast?,
          token.stop = byteLength (earlier ++ gap ++ slice) := by
        intro token isLast
        obtain rfl : last = token := by simpa using isLast
        exact covers.stop
      cases others with
      | nil =>
          obtain rfl : last = first := by simpa using isFirst
          exact ⟨earlier ++ gap, slice, after, rfl, whole, covers.start, stop, one⟩
      | cons second rest =>
          obtain ⟨front, text, left, rfl, whole', start, _, reads⟩ :=
            ih (by simpa using isFirst) (fun token member =>
              more token (List.mem_append_left _ member)) isClean before
          obtain rfl : left = (gap ++ slice) ++ after := by
            rw [whole'] at whole
            simpa using whole
          refine ⟨front, text ++ (gap ++ slice), after, by simp, whole, start, stop, ?_⟩
          rw [List.map_append]
          exact reads.append (one.gap ignored)
  | fault => cases isClean

end Grown

theorem part_of_filter {keeps : α → Bool} {all front kept behind : List α}
    (filtered : all.filter keeps = front ++ kept ++ behind) (some' : kept ≠ []) :
    ∃ before part after, all = before ++ part ++ after ∧ before.filter keeps = front ∧
      part.filter keeps = kept ∧ part.head? = kept.head? ∧ part.getLast? = kept.getLast? := by
  obtain ⟨left, after, rfl, inLeft, _⟩ := List.filter_eq_append_iff.mp filtered
  obtain ⟨before, part, rfl, isFront, isKept⟩ := List.filter_eq_append_iff.mp inLeft
  rcases List.eq_nil_or_concat kept with rfl | ⟨others, last, rfl⟩
  · exact absurd rfl some'
  rw [List.concat_eq_append] at isKept some' ⊢
  obtain ⟨most, rest, rfl, isOthers, isLast⟩ := List.filter_eq_append_iff.mp isKept
  obtain ⟨passed, behind', rfl, notKept, lastKept, none⟩ := List.filter_eq_cons_iff.mp isLast
  have upToLast : (most ++ passed ++ [last]).filter keeps = others ++ [last] := by
    rw [List.filter_append, List.filter_append, isOthers, List.filter_eq_nil_iff.mpr notKept]
    simp [lastKept]
  obtain ⟨first, tail, shown⟩ := List.exists_cons_of_ne_nil some'
  rw [shown] at upToLast
  obtain ⟨lead, part, same, notKept', firstKept, isTail⟩ := List.filter_eq_cons_iff.mp upToLast
  refine ⟨before ++ lead, first :: part, behind' ++ after, ?_, ?_, ?_, ?_, ?_⟩
  · have regrouped := congrArg (before ++ · ++ (behind' ++ after)) same
    simpa using regrouped
  · rw [List.filter_append, isFront, List.filter_eq_nil_iff.mpr notKept', List.append_nil]
  · rw [List.filter_cons_of_pos firstKept, isTail, shown]
  · rw [shown]
    rfl
  · have ends := congrArg List.getLast? same
    simpa using ends.symm

/-- The text of a node that was read from some tokens, not the mark in front of the text among
them, reads as these tokens and the comments between them. -/
theorem Node.ReadFrom.excerpt {source : Source} {lexer : Lexer}
    (finished : source.lex = (none, lexer)) {front taken behind : List Token} {node : Node}
    (readFrom : node.ReadFrom source taken)
    (among : lexer.significant = front ++ taken ++ behind) (some' : front ≠ []) :
    ∃ loc text all, node.loc = some loc ∧ loc.text? = some text ∧ Lexed text.toList all ∧
      (all.filter fun found => !found.isComment) = taken.map Token.lexeme := by
  obtain ⟨first, last, isFirst, isLast, located⟩ := readFrom.located
  have spelled := readFrom.spelled.allSpelled
  obtain ⟨before, part, after, all, isFront, isTaken, head, tail⟩ := part_of_filter among
    (by rintro rfl; cases isFirst)
  have more : ∀ token ∈ part, token.lexeme ≠ .eof := by
    intro token member isEnd
    have kept : token ∈ part.filter Token.isSignificant :=
      List.mem_filter.mpr ⟨member, Token.isSignificant_of_eof isEnd⟩
    rw [isTaken] at kept
    exact Parser.ne_eof_of_spelled spelled _ (List.mem_map_of_mem kept) isEnd
  have begun : before ≠ [] := by
    rintro rfl
    exact some' isFront.symm
  obtain ⟨_, upTo, _, grown⟩ := (Lexer.reached_of_lex finished).holds
  rw [all] at grown
  obtain ⟨_, grown⟩ := grown.front (by simp [begun])
  obtain ⟨earlier, text, left, rfl, whole, start, stop, reads⟩ :=
    grown.readsBefore begun (head.trans isFirst) more
  refine ⟨.between source first last, String.ofList text, part.map Token.lexeme, located, ?_, ?_,
    ?_⟩
  · show source.slice? first.start last.stop = _
    rw [start, stop last (tail.trans isLast)]
    exact Source.slice_between (by rw [whole, List.append_assoc])
  · rw [String.toList_ofList]
    exact reads.lexed
  · rw [← isTaken, List.filter_map]
    rfl

theorem significant_lexemes {source : Source} {lexer : Lexer}
    (finished : source.lex = (none, lexer)) {all : List Lexeme} (lexed : Lexed source.chars all) :
    lexer.significant.map Token.lexeme =
      .sof :: ((all.filter fun found => !found.isComment) ++ [.eof]) := by
  have same := significant_of_lexed lexed
  rw [Source.significant?, finished] at same
  rw [← Option.some.inj same, Lexer.significant, Lexer.lexemes, List.filter_map]
  rfl

/-- What the text of a node shows: it reads as the lexemes that spell the node, and these are no
more than the options allow for a text. -/
structure Node.Excerpts (options : Options) (node : Node) (text : List Char) (all : List Lexeme) :
    Prop where
  lexed : Lexed text all
  spelled : node.IsSpelled (all.filter fun found => !found.isComment)
  few : ∀ limit, options.maxTokens = some limit →
    (all.filter fun found => !found.isComment).length ≤ limit

/-- Everything inside a document has a text of its own. -/
theorem Document.excerpts {source : Source} {options : Options}
    (located : options.noLocation = false) {document : Document}
    (parsed : Document.parse source options = .ok document) {child node : Node}
    (member : child ∈ document.definitions.map .definition) (inside : node.Inside child) :
    ∃ loc text all, node.loc = some loc ∧ loc.text? = some text ∧
      node.Excerpts options text.toList all := by
  obtain ⟨written, whole, _, lexed, kept, _, _, few⟩ := Document.parse_ok parsed
  obtain ⟨lexer, finished, _⟩ := Source.lex_of_lexed lexed
  obtain ⟨front, taken, next, behind, among, readFrom, _⟩ :=
    document_taken located parsed finished member inside
  obtain ⟨loc, text, all, isLoc, isText, read, same⟩ :=
    readFrom.excerpt finished among (List.cons_ne_nil _ _)
  refine ⟨loc, text, all, isLoc, isText, read, same ▸ readFrom.spelled, fun limit limited => ?_⟩
  have enough := few limit limited
  have counted := congrArg List.length (significant_lexemes finished lexed)
  rw [same, List.length_map]
  rw [kept, among] at counted
  simp only [List.length_map, List.length_append, List.length_cons, List.length_nil] at counted
  omega

end GraphQL

import GraphQL.Proofs.Complaints

/-!
Reserved names. What is refused as one has the text of a word that may not stand there: `on` for the
name of a fragment, or the word of a scalar value for the name of an enum value. It is that name,
except that behind the description of an enum value also a string of that text is refused so.
-/

namespace GraphQL

open GraphQL.Parser (isDescription)

theorem Token.Covers.proper {token : Token} {before slice after : List Char}
    (covers : token.Covers before slice after) :
    token.lexeme.isProper = true ∨ token.lexeme.isComment = true ∨ token.lexeme = .eof := by
  have read := covers.read
  cases ahead : slice ++ after with
  | nil =>
      rw [ahead] at read
      exact .inr (.inr (Except.ok.inj read).symm)
  | cons c rest =>
      rw [ahead] at read
      rcases (Lexical.lexeme_ok read).2 with proper | comment
      · exact .inl proper
      · exact .inr (.inl comment)

theorem Grown.proper {source : Source} {clean : Bool} {behind : List Char} {tokens : List Token}
    (grown : Grown source clean behind tokens) {token : Token} (member : token ∈ tokens)
    (significant : token.isSignificant = true) (words : token.text ≠ "") :
    token.lexeme.isProper = true := by
  induction grown with
  | start =>
      rw [List.mem_singleton.mp member] at words
      exact absurd rfl words
  | @token _ _ _ _ _ _ read _ _ _ _ covers _ ih =>
      rcases List.mem_append.mp member with old | new
      · exact ih old
      · obtain rfl := List.mem_singleton.mp new
        rcases covers.proper with proper | comment | ended
        · exact proper
        · simp [Token.isSignificant, comment] at significant
        · exact absurd (by rw [Token.text, ended]; rfl) words
  | fault _ _ ih => exact ih member

theorem Token.of_scalarWord {token : Token} (proper : token.lexeme.isProper = true)
    (isWord : token.text ∈ ["true", "false", "null"]) :
    token.lexeme = .name token.text ∨ isDescription token = true := by
  have letters : ∀ word ∈ ["true", "false", "null"],
      word ≠ "" ∧ word.toList.all Lexical.isNumeric = false := by decide
  obtain ⟨nonempty, isOther⟩ := letters _ isWord
  have notNumeric : ¬ ∀ c ∈ token.text.toList, Lexical.isNumeric c = true := by
    rw [← List.all_eq_true, isOther]
    exact Bool.false_ne_true
  obtain ⟨found, _, _, _, _, _⟩ := token
  cases found with
  | name => exact .inl rfl
  | string | blockString => exact .inr rfl
  | int => exact absurd (Lexical.numeric_proper (.inl proper)) notNumeric
  | float => exact absurd (Lexical.numeric_proper (.inr proper)) notNumeric
  | punctuator => exact absurd rfl nonempty
  | sof | eof | comment => cases proper

/-- The token at a place is a string with the text of a word of a scalar value, and right in front
of it stands another string, the description. -/
def Source.QuotesWord (source : Source) (place : Nat) (token : Token) (word : String) : Prop :=
  word ∈ ["true", "false", "null"] ∧ token.text = word ∧ isDescription token = true ∧
    ∃ before, source.significantAt (place - 1) = some before ∧ isDescription before = true

theorem Complaint.reservedName {source : Source} {place : Nat} {token : Token}
    {complaint : Complaint} {name : String} (here : source.significantAt place = some token)
    (fits : complaint.FitsAt source place token) (reserved : complaint.kind = .reservedName name) :
    name ∈ ["on", "true", "false", "null"] ∧
      (token.lexeme = .name name ∨ source.QuotesWord place token name) := by
  cases complaint with
  | reservedFragmentName found =>
      obtain ⟨same, rfl⟩ := fits
      cases reserved
      exact ⟨List.mem_cons_self, .inl same.symm⟩
  | reservedEnumValue found =>
      obtain ⟨rfl, isWord, described⟩ := fits
      cases reserved
      refine ⟨List.mem_cons_of_mem _ isWord, ?_⟩
      obtain ⟨member, significant⟩ := Source.mem_of_significantAt here
      obtain ⟨_, _, grown⟩ := source.grown
      have words : token.text ≠ "" := ne_of_mem_of_not_mem isWord (by decide)
      have proper := grown.proper member significant words
      rcases Token.of_scalarWord proper isWord with isName | isString
      · exact .inl isName
      · exact .inr ⟨isWord, rfl, isString, described isString⟩
  | _ => cases reserved

/-- A name is refused as a reserved one only if it is reserved. The error stands at that name, or
at a string of the same text where the name of an enum value should follow its description. -/
theorem parse_error_reservedName {source : Source} {options : Options} {error : SyntaxError}
    {name : String}
    (failed : Document.parse source options = .error error ∨
      Value.parse source options = .error error ∨
      Value.parseConst source options = .error error ∨
      TypeRef.parse source options = .error error)
    (reserved : error.kind = .reservedName name) :
    name ∈ ["on", "true", "false", "null"] ∧ ∃ place token, error.AtPlace source place token ∧
      (token.lexeme = .name name ∨ source.QuotesWord place token name) := by
  cases parse_error_isAbout failed with
  | read met =>
      obtain ⟨fault, same⟩ := Source.isLexical_of_lex met
      rw [same] at reserved
      cases fault <;> cases reserved
  | @complaint place token complaint inside here fits =>
      obtain ⟨isReserved, found⟩ := Complaint.reservedName here fits reserved
      exact ⟨isReserved, place, token, complaint.atPlace inside here, found⟩

/-- The word of a truth value among the values of an enum. -/
theorem parse_error_reservedName_enumValue :
    let source := Source.ofBody "enum E \x7b A true \x7d"
    ∃ error, Document.parse source Options.default = .error error ∧
      error.kind = .reservedName "true" ∧ ∃ place token, error.AtPlace source place token ∧
        (token.lexeme = .name "true" ∨ source.QuotesWord place token "true") := by
  intro source
  have kind : (match Document.parse source Options.default with
      | .ok _ => none
      | .error error => some error.kind) = some (.reservedName "true") := by decide +kernel
  cases parsed : Document.parse source Options.default with
  | ok _ => simp [parsed] at kind
  | error error =>
      have reserved : error.kind = .reservedName "true" := by simpa [parsed] using kind
      exact ⟨error, rfl, reserved, (parse_error_reservedName (.inl parsed) reserved).2⟩

/-- A string behind a description is refused like the name that it spells. -/
theorem reservedName_of_string :
    let source := Source.ofBody "enum E \x7b \"d\" \"true\" \x7d"
    ∃ error, Document.parse source Options.default = .error error ∧
      error.kind = .reservedName "true" ∧ (∃ token, error.AtPlace source 5 token) ∧
      ∀ place token, error.AtPlace source place token → token.lexeme = .string "true" := by
  intro source
  have outcome : (match Document.parse source Options.default with
      | .ok _ => none
      | .error error => some (error.kind, error.offset, error.position)) =
      some (.reservedName "true", 13, ⟨1, 14⟩) := by decide +kernel
  have shown : source.significantAt 5 =
      some ⟨.string "true", 13, 19, ⟨1, 14⟩, ⟨1, 20⟩, some 4⟩ := by decide +kernel
  have single : ∀ other ∈ source.lex.2.significant, other.start = 13 →
      other = ⟨.string "true", 13, 19, ⟨1, 14⟩, ⟨1, 20⟩, some 4⟩ := by decide +kernel
  cases parsed : Document.parse source Options.default with
  | ok _ => simp [parsed] at outcome
  | error error =>
      obtain ⟨kind, offset, position⟩ : error.kind = .reservedName "true" ∧ error.offset = 13 ∧
          error.position = ⟨1, 14⟩ := by simpa [parsed] using outcome
      refine ⟨error, rfl, kind, ⟨_, by decide, shown, ⟨offset, position⟩, ?_⟩, ?_⟩
      · exact fun other member _ same => single other member (same.trans offset)
      · intro place token stands
        have member := List.mem_filter.mpr (Source.mem_of_significantAt stands.here)
        rw [single token member (stands.starts.1.symm.trans offset)]

end GraphQL

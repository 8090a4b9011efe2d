import GraphQL.Proofs.Meaning
import GraphQL.Proofs.Parser.Restricted
import GraphQL.Proofs.Spans

/-!
Constants. Three notions of them agree: a text is parsed as a constant value exactly if it is parsed
as a value that refers to no variable, and such a value means the same whatever variables are bound
to. Where a text is a value but no constant, the error names its first variable.
-/

namespace GraphQL

inductive Untyped.Inside (inner : Untyped) : Untyped → Prop
  | self : Untyped.Inside inner inner
  | item {items : List Untyped} {item : Untyped} (member : item ∈ items)
      (inside : Untyped.Inside inner item) : Untyped.Inside inner (.list items)
  | entry {entries : Entries Untyped} {key : String} {data : Untyped}
      (member : (key, data) ∈ entries) (inside : Untyped.Inside inner data) :
      Untyped.Inside inner (.object entries)

theorem Entries.mem_of_mem_ofList {pairs : List (String × α)} {entry : String × α}
    (member : entry ∈ ofList pairs) : entry ∈ pairs := by
  have found : entry ∈ (ofList pairs).filter fun other => other.1 = entry.1 := by simp [member]
  rw [filter_ofList] at found
  have given := List.mem_of_getLast? (Option.mem_toList.mp found)
  exact (List.mem_filter.mp given).1

section
variable (first second : Entries Untyped)

mutual

/-- A constant means the same whatever variables are bound to. -/
theorem Value.untyped_eq_of_isConst : (value : Value) → value.isConst = true →
    value.untyped first = value.untyped second
  | .list items _, isConst => by
      rw [Value.untyped, Value.untyped, untypedItems_eq_of_allConst items isConst]
  | .object fields _, isConst => by
      rw [Value.untyped, Value.untyped, untypedFields_eq_of_allConst fields isConst]
  | .int _ _, _ | .float _ _, _ | .string _, _ | .boolean _ _, _ | .null _, _ | .enum _ _, _ => rfl

theorem untypedItems_eq_of_allConst : (items : List Value) → Value.allConst items = true →
    untypedItems first items = untypedItems second items
  | [], _ => rfl
  | item :: rest, allConst => by
      rw [Value.allConst, Bool.and_eq_true] at allConst
      rw [untypedItems, untypedItems, item.untyped_eq_of_isConst allConst.1,
        untypedItems_eq_of_allConst rest allConst.2]

theorem untypedFields_eq_of_allConst : (fields : List ObjectField) →
    Value.allFieldsConst fields = true → untypedFields first fields = untypedFields second fields
  | [], _ => rfl
  | ⟨_, value, _⟩ :: rest, allConst => by
      rw [Value.allFieldsConst, Bool.and_eq_true] at allConst
      rw [untypedFields, untypedFields, value.untyped_eq_of_isConst allConst.1,
        untypedFields_eq_of_allConst rest allConst.2]

end

end

section
variable (bindings : Entries Untyped)

mutual

theorem Value.defined_of_isConst : (value : Value) → value.isConst = true →
    ¬Untyped.undefined.Inside (value.untyped bindings)
  | .list items _, isConst => by
      intro inside
      rw [Value.untyped] at inside
      cases inside with
      | item member inside => exact items_defined_of_allConst items isConst _ member inside
  | .object fields _, isConst => by
      intro inside
      rw [Value.untyped] at inside
      cases inside with
      | entry member inside =>
          have given := Entries.mem_of_mem_ofList member
          exact fields_defined_of_allConst fields isConst _ given inside
  | .int text _, _ => by
      intro inside
      rw [Value.untyped, Untyped.intOf] at inside
      cases read : Numeral.int64? text.toList <;> rw [read] at inside <;> cases inside
  | .float _ _, _ | .string _, _ | .boolean _ _, _ | .null _, _ | .enum _ _, _ => by
      rintro ⟨⟩

theorem items_defined_of_allConst : (items : List Value) → Value.allConst items = true →
    ∀ data ∈ untypedItems bindings items, ¬Untyped.undefined.Inside data
  | [], _ => fun _ member => absurd member List.not_mem_nil
  | item :: rest, allConst => by
      rw [Value.allConst, Bool.and_eq_true] at allConst
      rw [untypedItems, List.forall_mem_cons]
      constructor
      · exact item.defined_of_isConst allConst.1
      · exact items_defined_of_allConst rest allConst.2

theorem fields_defined_of_allConst : (fields : List ObjectField) →
    Value.allFieldsConst fields = true →
    ∀ pair ∈ untypedFields bindings fields, ¬Untyped.undefined.Inside pair.2
  | [], _ => fun _ member => absurd member List.not_mem_nil
  | ⟨_, value, _⟩ :: rest, allConst => by
      rw [Value.allFieldsConst, Bool.and_eq_true] at allConst
      rw [untypedFields, List.forall_mem_cons]
      constructor
      · exact value.defined_of_isConst allConst.1
      · exact fields_defined_of_allConst rest allConst.2

end

end

namespace Parser

theorem NamesFirst.tokens {source : Source} {options : Options} {lexer : Lexer}
    (finished : source.lex = (none, lexer)) {error : SyntaxError}
    (names : NamesFirst (.ofSource source options) error) :
    ∃ front sign named behind text,
      lexer.significant = front ++ sign :: named :: behind ∧
      (∀ token ∈ front, token.lexeme ≠ .punctuator .dollar) ∧
      sign.lexeme = .punctuator .dollar ∧ named.lexeme = .name text ∧
      error = (Complaint.constVariable text).error source sign := by
  cases names with
  | @ahead used s₁ s₂ text moves bare sign named =>
      have stands := stands_ofSource finished options
      obtain ⟨front, there, rfl, _⟩ := stands.moves moves fun found member => (bare found member).2
      obtain ⟨isSign, moved⟩ := sign.one
      obtain ⟨behind, last, whole, _⟩ :=
        (there.advance moved (by rw [isSign]; simp)).ahead
      refine ⟨front, s₁.current, s₂.current, behind, text, ?_, ?_, isSign, named, ?_⟩
      · simpa using whole
      · intro token member
        exact (bare _ (List.mem_map_of_mem member)).1
      · rw [moves.source]
        rfl

end Parser

/-- Constant parsing is the parsing of values restricted to constants. It succeeds with the values
that parsing gives and that are constant. Of a text that is another value it says which variable
comes first in it, at its place. What constants mean depends on no variable and is defined at every
depth. -/
theorem Value.parse_constants (source : Source) (options : Options) :
    (∀ value, Value.parseConst source options = .ok value ↔
      Value.parse source options = .ok value ∧ value.isConst = true) ∧
    (∀ value, Value.parse source options = .ok value → value.isConst = false →
      ∃ lexer front sign named behind text error,
        source.lex = (none, lexer) ∧ lexer.significant = front ++ sign :: named :: behind ∧
        (∀ token ∈ front, token.lexeme ≠ .punctuator .dollar) ∧
        sign.lexeme = .punctuator .dollar ∧ named.lexeme = .name text ∧
        Value.parseConst source options = .error error ∧
        error.message = "Unexpected variable \"$" ++ text ++ "\" in constant value." ∧
        error.At sign) ∧
    ∀ value : Value, value.isConst = true → ∀ bindings others : Option (Entries Untyped),
      value.untyped (bindings.getD []) = value.untyped (others.getD []) ∧
        ¬Untyped.undefined.Inside (value.untyped (bindings.getD [])) := by
  have restricted := Parser.whole_restricted
    (Parser.value_restricted options.maxNestingDepth) source options
  constructor
  · exact restricted.1
  constructor
  · intro value parsed varies
    obtain ⟨error, refused, names⟩ := restricted.2 value parsed varies
    obtain ⟨_, all, lexed, _⟩ :=
      Parser.whole_parse_ok (Parser.value_reads false _) Value.spelled parsed
    obtain ⟨lexer, finished, _⟩ := Source.lex_of_lexed lexed
    obtain ⟨front, sign, named, behind, text, tokens, free, isSign, isName, rfl⟩ :=
      names.tokens finished
    have member : sign ∈ lexer.significant := by simp [tokens]
    refine ⟨lexer, front, sign, named, behind, text, _, finished, tokens, free, isSign, isName,
      refused, rfl, ?_⟩
    exact Parser.complaint_at (Lexer.reached_of_lex finished) (List.mem_filter.mp member).1 _
  · intro value isConst bindings others
    constructor
    · exact value.untyped_eq_of_isConst _ _ isConst
    · exact value.defined_of_isConst _ isConst

/-- A variable in an object in a list, and another one behind it. -/
theorem Value.parse_constants_nested :
    let source := Source.ofBody "[1, \x7ba: $b\x7d, $c]"
    ∃ value, Value.parse source Options.default = .ok value ∧ value.isConst = false ∧
      ∃ lexer front sign named behind text error,
        source.lex = (none, lexer) ∧ lexer.significant = front ++ sign :: named :: behind ∧
        (∀ token ∈ front, token.lexeme ≠ .punctuator .dollar) ∧
        sign.lexeme = .punctuator .dollar ∧ named.lexeme = .name text ∧
        Value.parseConst source Options.default = .error error ∧
        error.message = "Unexpected variable \"$" ++ text ++ "\" in constant value." ∧
        error.At sign := by
  intro source
  have varies : (Value.parse source Options.default).toOption.map Value.isConst = some false := by
    decide +kernel
  cases parsed : Value.parse source Options.default with
  | error _ => simp [parsed, Except.toOption] at varies
  | ok value =>
      have isVariable : value.isConst = false := by
        simpa [parsed, Except.toOption] using varies
      exact ⟨value, rfl, isVariable,
        (Value.parse_constants source Options.default).2.1 value parsed isVariable⟩

end GraphQL

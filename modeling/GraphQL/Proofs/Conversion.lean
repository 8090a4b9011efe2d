import GraphQL.Proofs.Constants
import GraphQL.Proofs.Numerals
import GraphQL.Proofs.WellFormed

/-!
What the numbers of a value become. Wherever they stand, integers that take at most 64 bits stay
what they are, and all other numbers become doubles. No number of a text that was parsed is a
missing one, so the data hold one only if a variable is bound to it.
-/

namespace GraphQL

open Lexical

/-! Rounding always gives a number. -/

theorem Binary64.ofRounded_ne_nan (negative : Bool) (mantissa exponent : Nat) :
    ofRounded negative mantissa exponent ≠ nan := by
  unfold ofRounded
  split
  split <;> simp

theorem Binary64.ofQuotient_ne_nan (negative : Bool) (num den : Nat) :
    ofQuotient negative num den ≠ nan := by
  unfold ofQuotient
  exact ofRounded_ne_nan _ _ _

theorem Binary64.ofDecimal_ne_nan (negative : Bool) (digits : Nat) (exponent : Int) :
    ofDecimal negative digits exponent ≠ nan := by
  unfold ofDecimal
  dsimp only
  split
  · simp
  · split
    · simp
    · split <;> exact ofQuotient_ne_nan _ _ _

/-! Literals. -/

theorem integer_of_isInt {text : String} (isInt : isInt text.toList = true) :
    text.toList ∈ NumberGrammar.integer := by
  obtain ⟨parts, valid, same, isInteger⟩ := exists_parts_of_isInt isInt
  have denotes := NumberGrammar.denotes_iff.mpr ⟨parts, valid, same, isInteger.symm⟩
  rcases denotes with ⟨_, member⟩ | ⟨other, _⟩
  · exact member
  · cases other

/-- An integer of the grammar stays itself within 64 bits and becomes the nearest double beyond. -/
theorem Untyped.intOf_of_integer {text : String} (isInteger : text.toList ∈ NumberGrammar.integer) :
    intOf text =
      if -2 ^ 63 ≤ signedValue text.toList ∧ signedValue text.toList < 2 ^ 63 then
        .int (signedValue text.toList)
      else .float (.ofInt (signedValue text.toList)) := by
  obtain ⟨parts, valid, isInteger, same⟩ := NumberGrammar.mem_integer.mp isInteger
  rw [intOf, ← same, Numeral.int64?_of_parts valid isInteger]
  by_cases within : -2 ^ 63 ≤ signedValue parts.text ∧ signedValue parts.text < 2 ^ 63
  · simp only [if_pos within]
  · have nonzero : signedValue parts.text ≠ 0 := by omega
    have double := Numeral.double_of_integer valid isInteger nonzero
    simp only [if_neg within, floatOf, ← same, Numeral.decimal?_of_parts valid, double,
      Option.getD_some]

theorem Untyped.floatOf_of_parts {text : String} {parts : NumberParts} (valid : parts.Valid)
    (same : parts.text = text.toList) : floatOf text = parts.double := by
  rw [floatOf, ← same, Numeral.decimal?_of_parts valid, Option.getD_some]

/-! Where the data of a value come from. -/

/-- The data are those of a value inside a node, or stand inside what a variable is bound to. -/
def Untyped.ComesFrom (bindings : Entries Untyped) (node : Node) (data : Untyped) : Prop :=
  (∃ part : Value, (Node.value part).Inside node ∧ data = part.untyped bindings) ∨
    ∃ entry ∈ bindings, data.Inside entry.2

namespace Untyped.ComesFrom

variable {bindings : Entries Untyped} {node child : Node} {data : Untyped}

theorem ofChild (member : child ∈ node.children) (comes : ComesFrom bindings child data) :
    ComesFrom bindings node data := by
  rcases comes with ⟨part, inside, same⟩ | bound
  · exact .inl ⟨part, .child member inside, same⟩
  · exact .inr bound

end Untyped.ComesFrom

section
variable {bindings : Entries Untyped} {data : Untyped}

theorem Entries.mem_of_lookup {entries : Entries α} {key : String} {value : α}
    (found : entries.lookup key = some value) : ∃ entry ∈ entries, entry.2 = value := by
  rw [lookup_eq_find] at found
  obtain ⟨entry, isFound, same⟩ := Option.map_eq_some_iff.mp found
  exact ⟨entry, List.mem_of_find?_eq_some isFound, same⟩

mutual

theorem Value.comesFrom_of_inside : (value : Value) → data.Inside (value.untyped bindings) →
    data.ComesFrom bindings (.value value)
  | .list items loc, inside => by
      rw [Value.untyped] at inside
      cases inside with
      | self => exact .inl ⟨_, .self, by rw [Value.untyped]⟩
      | item member inside =>
          obtain ⟨part, isItem, comes⟩ := items_comeFrom_of_inside items member inside
          exact comes.ofChild (List.mem_map_of_mem isItem)
  | .object fields loc, inside => by
      rw [Value.untyped] at inside
      cases inside with
      | self => exact .inl ⟨_, .self, by rw [Value.untyped]⟩
      | entry member inside =>
          obtain ⟨part, isField, comes⟩ :=
            fields_comeFrom_of_inside fields (Entries.mem_of_mem_ofList member) inside
          exact comes.ofChild (List.mem_map_of_mem isField)
  | .var reference, inside => by
      rw [Value.untyped] at inside
      cases found : bindings.lookup reference.name.value with
      | none =>
          rw [found] at inside
          cases inside
          exact .inl ⟨_, .self, by rw [Value.untyped, found]⟩
      | some bound =>
          obtain ⟨entry, isBound, rfl⟩ := Entries.mem_of_lookup found
          rw [found] at inside
          exact .inr ⟨entry, isBound, inside⟩
  | .int text loc, inside => by
      refine .inl ⟨_, .self, ?_⟩
      rw [Value.untyped, Untyped.intOf] at inside ⊢
      split at inside <;> cases inside <;> rfl
  | .float _ _, inside | .string _, inside | .boolean _ _, inside | .null _, inside
  | .enum _ _, inside => by
      cases inside
      exact .inl ⟨_, .self, rfl⟩

theorem items_comeFrom_of_inside : (items : List Value) → {outer : Untyped} →
    outer ∈ untypedItems bindings items → data.Inside outer →
      ∃ item ∈ items, data.ComesFrom bindings (.value item)
  | [], _, member, _ => by cases member
  | item :: rest, _, member, inside => by
      rcases List.mem_cons.mp member with rfl | later
      · exact ⟨item, List.mem_cons_self, item.comesFrom_of_inside inside⟩
      · obtain ⟨part, isItem, comes⟩ := items_comeFrom_of_inside rest later inside
        exact ⟨part, List.mem_cons_of_mem item isItem, comes⟩

theorem fields_comeFrom_of_inside : (fields : List ObjectField) → {key : String} →
    {outer : Untyped} → (key, outer) ∈ untypedFields bindings fields → data.Inside outer →
      ∃ field ∈ fields, data.ComesFrom bindings (.objectField field)
  | [], _, _, member, _ => by cases member
  | ⟨name, value, loc⟩ :: rest, _, _, member, inside => by
      rcases List.mem_cons.mp member with first | later
      · cases first
        have comes := value.comesFrom_of_inside inside
        exact ⟨_, List.mem_cons_self, comes.ofChild (by simp [Node.children])⟩
      · obtain ⟨part, isField, comes⟩ := fields_comeFrom_of_inside rest later inside
        exact ⟨part, List.mem_cons_of_mem _ isField, comes⟩

end

end

def Entries.FreeOfNan (bindings : Entries Untyped) : Prop :=
  ∀ entry ∈ bindings, ¬(Untyped.float .nan).Inside entry.2

theorem Value.freeOfNan {value : Value} {options : Options} {bindings : Entries Untyped}
    (sound : ∀ node : Node, node.Inside (.value value) → node.Sound options)
    (free : bindings.FreeOfNan) : ¬(Untyped.float .nan).Inside (value.untyped bindings) := by
  intro inside
  rcases value.comesFrom_of_inside inside with ⟨part, isPart, same⟩ | ⟨entry, isBound, inside⟩
  · have rule := sound _ isPart
    cases part with
    | int text loc =>
        rw [Value.untyped, Untyped.intOf_of_integer (integer_of_isInt rule)] at same
        split at same
        · cases same
        · exact Binary64.ofDecimal_ne_nan _ _ _ (Untyped.float.inj same).symm
    | float text loc =>
        obtain ⟨parts, valid, isText, _⟩ := exists_parts_of_isFloat rule
        rw [Value.untyped, Untyped.floatOf_of_parts valid isText] at same
        exact Binary64.ofDecimal_ne_nan _ _ _ (Untyped.float.inj same).symm
    | var reference =>
        rw [Value.untyped] at same
        cases found : bindings.lookup reference.name.value with
        | none =>
            rw [found] at same
            cases same
        | some bound =>
            obtain ⟨entry, isBound, rfl⟩ := Entries.mem_of_lookup found
            rw [found, Option.getD_some] at same
            exact free entry isBound (same ▸ .self)
    | _ => cases same
  · exact free entry isBound inside

/-- A value that was parsed, under any variables that are bound to no missing number. Wherever an
integer stands in it, of any length, it stays itself from `-2 ^ 63` to below `2 ^ 63` and becomes
the nearest double otherwise. Each float becomes the double nearest to the decimal that its parts
spell. None of these doubles is the missing number, and the data hold none at any depth. -/
theorem Value.parse_numbers {source : Source} {options : Options} {value : Value}
    (parsed : Value.parse source options = .ok value) {bindings : Option (Entries Untyped)}
    (free : (bindings.getD []).FreeOfNan) :
    (∀ text loc, (Node.value (.int text loc)).Inside (.value value) →
      text.toList ∈ NumberGrammar.integer ∧ Binary64.ofInt (signedValue text.toList) ≠ .nan ∧
      (Value.int text loc).untyped (bindings.getD []) =
        if -2 ^ 63 ≤ signedValue text.toList ∧ signedValue text.toList < 2 ^ 63 then
          .int (signedValue text.toList)
        else .float (.ofInt (signedValue text.toList))) ∧
    (∀ text loc, (Node.value (.float text loc)).Inside (.value value) →
      ∃ parts : NumberParts, parts.Valid ∧ parts.text = text.toList ∧ parts.double ≠ .nan ∧
        (Value.float text loc).untyped (bindings.getD []) = .float parts.double) ∧
    ¬(Untyped.float .nan).Inside (value.untyped (bindings.getD [])) := by
  have sound := (parse_sound source options).2.1 value parsed
  constructor
  · intro text loc inside
    have isInteger := integer_of_isInt (sound _ inside)
    refine ⟨isInteger, Binary64.ofDecimal_ne_nan _ _ _, ?_⟩
    rw [Value.untyped]
    exact Untyped.intOf_of_integer isInteger
  constructor
  · intro text loc inside
    obtain ⟨parts, valid, isText, _⟩ := exists_parts_of_isFloat (sound _ inside)
    refine ⟨parts, valid, isText, Binary64.ofDecimal_ne_nan _ _ _, ?_⟩
    rw [Value.untyped, Untyped.floatOf_of_parts valid isText]
  · exact Value.freeOfNan sound free

/-- The least integer that stays one, the least positive one that does not, inside an object, a
float beyond the largest double, and a variable. -/
theorem Value.parse_numbers_edges :
    let bindings : Option (Entries Untyped) := some [("v", .float (.infinity true))]
    let least := Value.int "-9223372036854775808" none
    let beyond := Value.int "9223372036854775808" none
    let huge := Value.float "1e999" none
    let value := Value.list [least, .object [⟨bareName "a", beyond, none⟩] none, huge,
      .var ⟨bareName "v", none⟩] none
    let source := Source.ofBody "[-9223372036854775808, \x7ba: 9223372036854775808\x7d, 1e999, $v]"
    Value.parse source bareOptions = .ok value ∧ (bindings.getD []).FreeOfNan ∧
      least.untyped (bindings.getD []) = .int (-2 ^ 63) ∧
      beyond.untyped (bindings.getD []) = .float (.ofInt (2 ^ 63)) ∧
      (∃ number, number ≠ .nan ∧ huge.untyped (bindings.getD []) = .float number) ∧
      ¬(Untyped.float .nan).Inside (value.untyped (bindings.getD [])) := by
  intro bindings least beyond huge value source
  have parsed : Value.parse source bareOptions = .ok value := ok_of_toOption (by decide +kernel)
  have free : (bindings.getD []).FreeOfNan := by
    intro entry member inside
    rw [List.mem_singleton.mp member] at inside
    cases inside
  obtain ⟨integers, floats, none⟩ := Value.parse_numbers parsed free
  have isLeast : (Node.value least).Inside (.value value) :=
    .child List.mem_cons_self .self
  have isBeyond : (Node.value beyond).Inside (.value value) :=
    .child (List.mem_cons_of_mem _ List.mem_cons_self) <|
      .child List.mem_cons_self <| .child (List.mem_cons_of_mem _ List.mem_cons_self) .self
  have isHuge : (Node.value huge).Inside (.value value) :=
    .child (List.mem_cons_of_mem _ (List.mem_cons_of_mem _ List.mem_cons_self)) .self
  refine ⟨parsed, free, ?_, ?_, ?_, none⟩
  · have lower : signedValue "-9223372036854775808".toList = -2 ^ 63 := by decide +kernel
    rw [(integers _ _ isLeast).2.2, lower, if_pos ⟨by decide, by decide⟩]
  · have upper : signedValue "9223372036854775808".toList = 2 ^ 63 := by decide +kernel
    rw [(integers _ _ isBeyond).2.2, upper, if_neg (by decide)]
  · obtain ⟨parts, _, _, isNumber, converts⟩ := floats _ _ isHuge
    exact ⟨parts.double, isNumber, converts⟩

end GraphQL

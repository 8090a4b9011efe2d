import GraphQL.Proofs.Depth
import GraphQL.Proofs.Unlocated
import GraphQL.Proofs.WellFormed

/-!
Values and type references, printed and parsed again. Whatever is sound everywhere comes back, up
to its depth: soundness and depth are all that parsing asks of a tree, and each sound leaf is
spelled by lexemes that can be written.
-/

namespace GraphQL

open GraphQL.Parser

def Node.AllSound (options : Options) (root : Node) : Prop :=
  ∀ node : Node, node.Inside root → node.Sound options

section
variable {options : Options}

theorem Node.allSound_iff {root : Node} :
    root.AllSound options ↔
      root.Sound options ∧ ∀ child ∈ root.children, child.AllSound options := by
  constructor
  · intro sound
    exact ⟨sound root .self, fun child member node inside => sound node (.child member inside)⟩
  · rintro ⟨here, below⟩ node inside
    cases inside with
    | self => exact here
    | child member inside => exact below _ member node inside

theorem Name.proper_of_sound {name : Name} (sound : (Node.name name).AllSound options) :
    AllProper name.lexemes :=
  allProper_cons.mpr ⟨(Node.allSound_iff.mp sound).1, allProper_nil⟩

theorem StringValue.proper_of_sound {literal : StringValue}
    (sound : (Value.string literal).Sound) : literal.lexeme.isProper = true := by
  unfold StringValue.lexeme
  split
  · rename_i block
    exact sound block
  · rfl

mutual

theorem Value.proper_of_sound :
    (value : Value) → (Node.value value).AllSound options → AllProper value.lexemes
  | .var reference, sound => by
      have name := (Node.allSound_iff.mp sound).2 _ List.mem_cons_self
      exact allProper_cons.mpr ⟨rfl, Name.proper_of_sound name⟩
  | .int _ _, sound | .float _ _, sound =>
      allProper_cons.mpr ⟨(Node.allSound_iff.mp sound).1, allProper_nil⟩
  | .string _, sound => by
      have here := (Node.allSound_iff.mp sound).1
      exact allProper_cons.mpr ⟨StringValue.proper_of_sound here, allProper_nil⟩
  | .boolean true _, _ | .boolean false _, _ | .null _, _ =>
      allProper_cons.mpr ⟨by decide, allProper_nil⟩
  | .enum _ _, sound => by
      have here := (Node.allSound_iff.mp sound).1
      exact allProper_cons.mpr ⟨here.1, allProper_nil⟩
  | .list items _, sound => by
      have below := List.forall_mem_map.mp (Node.allSound_iff.mp sound).2
      simp [Value.lexemes, Lexeme.isProper, items_proper_of_sound items below]
  | .object fields _, sound => by
      have below := List.forall_mem_map.mp (Node.allSound_iff.mp sound).2
      simp [Value.lexemes, Lexeme.isProper, fields_proper_of_sound fields below]

theorem items_proper_of_sound :
    (items : List Value) → (∀ item ∈ items, (Node.value item).AllSound options) →
      AllProper (itemsLexemes items)
  | [], _ => allProper_nil
  | item :: rest, sound => by
      obtain ⟨first, others⟩ := List.forall_mem_cons.mp sound
      exact allProper_append.mpr ⟨item.proper_of_sound first, items_proper_of_sound rest others⟩

theorem fields_proper_of_sound :
    (fields : List ObjectField) → (∀ field ∈ fields, (Node.objectField field).AllSound options) →
      AllProper (fieldsLexemes fields)
  | [], _ => allProper_nil
  | ⟨name, value, loc⟩ :: rest, sound => by
      obtain ⟨first, others⟩ := List.forall_mem_cons.mp sound
      obtain ⟨named, given⟩ := List.forall_mem_cons.mp (Node.allSound_iff.mp first).2
      have given := value.proper_of_sound (List.forall_mem_singleton.mp given)
      have field : AllProper (ObjectField.lexemes ⟨name, value, loc⟩) :=
        allProper_append.mpr ⟨Name.proper_of_sound named, allProper_cons.mpr ⟨rfl, given⟩⟩
      exact allProper_append.mpr ⟨field, fields_proper_of_sound rest others⟩

end

mutual

/-- A sound value keeps the rules, with as many levels as it has. -/
theorem Value.conforms_of_sound :
    {levels : Nat} → (value : Value) → (Node.value value).AllSound options →
      value.depth ≤ levels → value.conforms options.located false levels = true
  | 0, value, _, deep => absurd value.depth_pos (Nat.not_lt.mpr deep)
  | _ + 1, .var _, _, _ | _ + 1, .int _ _, _, _ | _ + 1, .float _ _, _, _
  | _ + 1, .string _, _, _ | _ + 1, .boolean _ _, _, _ | _ + 1, .null _, _, _ => rfl
  | _ + 1, .enum _ _, sound, _ => by
      have here := (Node.allSound_iff.mp sound).1
      rw [Value.conforms, here.2]
      rfl
  | levels + 1, .list items _, sound, deep => by
      have below := List.forall_mem_map.mp (Node.allSound_iff.mp sound).2
      rw [Value.conforms, items_conform_of_sound items below (Nat.le_of_succ_le_succ deep)]
      rfl
  | levels + 1, .object fields _, sound, deep => by
      have below := List.forall_mem_map.mp (Node.allSound_iff.mp sound).2
      rw [Value.conforms, fields_conform_of_sound fields below (Nat.le_of_succ_le_succ deep)]
      rfl

theorem items_conform_of_sound :
    {levels : Nat} → (items : List Value) →
      (∀ item ∈ items, (Node.value item).AllSound options) → itemsDepth items ≤ levels →
      itemsConform options.located false levels items = true
  | _, [], _, _ => rfl
  | _, item :: rest, sound, deep => by
      obtain ⟨first, others⟩ := List.forall_mem_cons.mp sound
      obtain ⟨firstDeep, othersDeep⟩ := Nat.max_le.mp deep
      rw [itemsConform, item.conforms_of_sound first firstDeep,
        items_conform_of_sound rest others othersDeep]
      rfl

theorem fields_conform_of_sound :
    {levels : Nat} → (fields : List ObjectField) →
      (∀ field ∈ fields, (Node.objectField field).AllSound options) →
      fieldsDepth fields ≤ levels → fieldsConform options.located false levels fields = true
  | _, [], _, _ => rfl
  | _, ⟨_, value, _⟩ :: rest, sound, deep => by
      obtain ⟨first, others⟩ := List.forall_mem_cons.mp sound
      obtain ⟨_, given⟩ := List.forall_mem_cons.mp (Node.allSound_iff.mp first).2
      obtain ⟨firstDeep, othersDeep⟩ := Nat.max_le.mp deep
      rw [fieldsConform, ObjectField.conforms,
        value.conforms_of_sound (List.forall_mem_singleton.mp given) firstDeep,
        fields_conform_of_sound rest others othersDeep]
      rfl

end

theorem NamedType.proper_of_sound {type : NamedType} (sound : type.node.AllSound options) :
    AllProper type.lexemes :=
  Name.proper_of_sound ((Node.allSound_iff.mp sound).2 _ List.mem_cons_self)

mutual

theorem TypeRef.proper_of_sound :
    (type : TypeRef) → (Node.type type).AllSound options → AllProper type.lexemes
  | .nullable type, sound => type.proper_of_sound sound
  | .nonNull type _, sound => by
      have inner := (Node.allSound_iff.mp sound).2 _ List.mem_cons_self
      simp [TypeRef.lexemes, Lexeme.isProper, type.proper_of_sound inner]

theorem NullableType.proper_of_sound :
    (type : NullableType) → (Node.type (.nullable type)).AllSound options →
      AllProper type.lexemes
  | .named _, sound => NamedType.proper_of_sound sound
  | .list item _, sound => by
      have inner := (Node.allSound_iff.mp sound).2 _ List.mem_cons_self
      simp [NullableType.lexemes, Lexeme.isProper, item.proper_of_sound inner]

end

mutual

theorem TypeRef.conforms_of_depth :
    {levels : Nat} → (type : TypeRef) → type.depth ≤ levels →
      type.conforms options.located levels = true
  | 0, type, deep => absurd type.depth_pos (Nat.not_lt.mpr deep)
  | _ + 1, .nullable type, deep => type.conforms_of_depth deep
  | _ + 1, .nonNull type _, deep => by
      rw [TypeRef.conforms, type.conforms_of_depth deep]
      rfl

theorem NullableType.conforms_of_depth :
    {levels : Nat} → (type : NullableType) → type.depth ≤ levels + 1 →
      type.conforms options.located levels = true
  | _, .named _, _ => rfl
  | _, .list item _, deep => by
      rw [NullableType.conforms, item.conforms_of_depth (Nat.le_of_succ_le_succ deep)]
      rfl

end

/-- What is spelled by a text is parsed from it, where the grammar finds it with the levels that
are allowed. -/
theorem Parser.run_of_spells {item : Parser α} {spell : α → List Lexeme} {ok : α → Bool}
    (follow : α → Lexeme → Prop)
    (each : Finds options options.maxNestingDepth item spell ok follow) {node : α}
    (isOk : ok node = true) (follows : follow node .eof) {text : List Char}
    (spells : Spells text (spell node)) (spelled : AllSpelled (spell node))
    (few : ∀ limit, options.maxTokens = some limit → (spell node).length ≤ limit)
    (name : String) :
    (whole item).run ⟨String.ofList text, name⟩ options = .ok node := by
  have lexed : Lexed (Source.chars ⟨String.ofList text, name⟩) (spell node) := by
    rw [Source.chars, String.toList_ofList]
    exact spells.lexed
  obtain ⟨s', moves⟩ := moves_ofSource lexed spelled few
  exact run_ok.mpr
    ⟨s', whole_finds each isOk follows (ready_ofSource _ rfl rfl (Nat.le_refl _)) moves⟩

end

/-- With no locations and no limit on tokens, every value comes back from its printed form without
its locations, and so does every type reference: if all inside is sound and it nests no deeper than
is allowed. -/
theorem parse_print_part {options : Options} (bare : options.noLocation = true)
    (unlimited : options.maxTokens = none) (name : String) :
    (∀ value : Value, (∀ node : Node, node.Inside (.value value) → node.Sound options) →
      value.depth ≤ options.maxNestingDepth →
      Value.parse ⟨String.ofList value.print, name⟩ options = .ok (value.relocate unlocated)) ∧
    ∀ type : TypeRef, (∀ node : Node, node.Inside (.type type) → node.Sound options) →
      type.depth ≤ options.maxNestingDepth →
      TypeRef.parse ⟨String.ofList type.print, name⟩ options = .ok (type.relocate unlocated) := by
  have few (lexemes : List Lexeme) :
      ∀ limit, options.maxTokens = some limit → lexemes.length ≤ limit := by
    intro limit limited
    rw [unlimited] at limited
    cases limited
  constructor
  · intro value sound deep
    have spells := Value.spells value (value.proper_of_sound sound)
    rw [← Value.lexemes_relocate unlocated] at spells
    have conforms : (value.relocate unlocated).conforms options false options.maxNestingDepth := by
      have same := value.conforms_transfer (.bare options) false options.maxNestingDepth
      exact same.trans (value.conforms_of_sound sound deep)
    exact run_of_spells (fun _ _ => True) (value_finds bare false _) conforms trivial spells
      (Value.spelled _) (few _) name
  · intro type sound deep
    have spells := TypeRef.spells type (type.proper_of_sound sound)
    rw [← TypeRef.lexemes_relocate unlocated] at spells
    have conforms : (type.relocate unlocated).conforms options options.maxNestingDepth := by
      have same := type.conforms_transfer (.bare options) options.maxNestingDepth
      exact same.trans (type.conforms_of_depth deep)
    have noBang : Lexeme.eof ≠ .punctuator .bang := by rintro ⟨⟩
    exact run_of_spells (fun _ next => next ≠ .punctuator .bang) (typeRef_finds bare _) conforms
      noBang spells (TypeRef.spelled _) (few _) name

/-- A block string in an object in a list, and a list of types, some of them with locations. -/
theorem parse_print_part_nested :
    let loc : Location := ⟨4, 5, ⟨1, 5⟩, ⟨1, 6⟩, none⟩
    let value : Value := .list [.enum "A" (some loc),
      .object [⟨⟨"b", some loc⟩, .string ⟨"c\n  \"", true, some loc⟩, none⟩] (some loc)] none
    let type : TypeRef :=
      .nonNull (.list (.nonNull (.named ⟨⟨"T", some loc⟩, none⟩) none) (some loc)) (some loc)
    let options : Options := { bareOptions with maxNestingDepth := 3 }
    ((∀ node : Node, node.Inside (.value value) → node.Sound options) ∧ value.depth = 3 ∧
      Value.parse ⟨String.ofList value.print, "v"⟩ options = .ok (value.relocate unlocated)) ∧
    (∀ node : Node, node.Inside (.type type) → node.Sound options) ∧ type.depth = 2 ∧
      TypeRef.parse ⟨String.ofList type.print, "t"⟩ options = .ok (type.relocate unlocated) := by
  intro loc value type options
  have unasked {node : Node} (sound : node.Sound options.located) : node.Sound options := by
    cases node with
    | definition inner => cases inner <;> exact sound
    | selection inner => cases inner <;> exact sound
    | _ => exact sound
  have valueSound : ∀ node : Node, node.Inside (.value value) → node.Sound options := by
    intro node inside
    apply unasked
    apply inside.sound
    · exact ⟨false, 3, by decide +kernel⟩
    · show ∀ found ∈ value.lexemes, found.isProper = true
      decide +kernel
  have typeSound : ∀ node : Node, node.Inside (.type type) → node.Sound options := by
    intro node inside
    apply unasked
    apply inside.sound
    · exact ⟨3, by decide +kernel⟩
    · show ∀ found ∈ type.lexemes, found.isProper = true
      decide +kernel
  exact ⟨⟨valueSound, rfl, (parse_print_part rfl rfl "v").1 value valueSound (Nat.le_refl 3)⟩,
    typeSound, rfl, (parse_print_part rfl rfl "t").2 type typeSound (Nat.le_succ 2)⟩

end GraphQL

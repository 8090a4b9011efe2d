import GraphQL.Proofs.Sorting
import GraphQL.Untyped

/-!
What a value means without its type does not depend on how the fields of its objects are arranged.
The data come out in another order of keys, and as JSON they are the same.
-/

namespace GraphQL

namespace Entries

theorem filter_put_self {key : String} {value : α} {entries : Entries α} {old : Option (String × α)}
    (before : entries.filter (fun entry => entry.1 = key) = old.toList) :
    (put key value entries).filter (fun entry => entry.1 = key) = [(key, value)] := by
  induction entries generalizing old with
  | nil => simp [put]
  | cons entry rest ih =>
      by_cases here : entry.1 = key
      · have none : rest.filter (fun entry => entry.1 = key) = [] := by
          rw [List.filter_cons_of_pos (by simpa using here)] at before
          cases old with
          | none => exact absurd before (List.cons_ne_nil _ _)
          | some _ => exact (List.cons.inj before).2
        simp [put, here, none]
      · simp only [put, here, if_false]
        simp only [List.filter_cons, here, decide_false, Bool.false_eq_true, if_false] at before ⊢
        exact ih before

theorem filter_put_of_ne {key wanted : String} {value : α} {entries : Entries α}
    (other : key ≠ wanted) :
    (put key value entries).filter (fun entry => entry.1 = wanted) =
      entries.filter (fun entry => entry.1 = wanted) := by
  induction entries with
  | nil => simp [put, other]
  | cons entry rest ih =>
      by_cases here : entry.1 = key
      · simp [put, here, other]
      · simp only [put, here, if_false]
        rw [List.filter_cons, List.filter_cons, ih]

theorem ofList_concat (pairs : List (String × α)) (pair : String × α) :
    ofList (pairs ++ [pair]) = put pair.1 pair.2 (ofList pairs) := by
  simp [ofList]

/-- Of what is bound to a key one after another, the last counts. -/
theorem filter_ofList (pairs : List (String × α)) (wanted : String) :
    (ofList pairs).filter (fun entry => entry.1 = wanted) =
      (pairs.filter fun pair => pair.1 = wanted).getLast?.toList := by
  induction pairs using List.reverseRecOn with
  | nil => rfl
  | append_singleton pairs pair ih =>
      rw [ofList_concat, List.filter_append]
      by_cases here : pair.1 = wanted
      · subst here
        simp [filter_put_self ih]
      · simp [filter_put_of_ne here, ih, here]

theorem lookup_eq_find (entries : Entries α) (key : String) :
    entries.lookup key = (entries.find? fun entry => entry.1 = key).map Prod.snd := by
  induction entries with
  | nil => rfl
  | cons entry rest ih =>
      obtain ⟨known, value⟩ := entry
      by_cases here : known = key
      · subst here
        simp
      · have other : (key == known) = false := beq_false_of_ne (Ne.symm here)
        simp [List.lookup_cons, other, here, ih]

theorem lookup_ofList (pairs : List (String × α)) (key : String) :
    (ofList pairs).lookup key = (pairs.filter fun pair => pair.1 = key).getLast?.map Prod.snd := by
  rw [lookup_eq_find, ← List.head?_filter, filter_ofList]
  cases (pairs.filter fun pair => pair.1 = key).getLast? <;> rfl

theorem reordered_ofList {pairs others : List (String × α)}
    (reordered : Reordered Prod.fst pairs others) :
    Reordered Prod.fst (ofList pairs) (ofList others) := by
  intro wanted
  rw [filter_ofList, filter_ofList, reordered wanted]

theorem ordersKeys : OrdersKeys fun a b : String => decide (a ≤ b) where
  trans a b c first second := by
    simp only [decide_eq_true_eq] at first second ⊢
    exact String.le_trans first second
  total a b := by simpa using String.le_total a b
  antisymm first second := by
    simp only [decide_eq_true_eq] at first second
    exact String.le_antisymm first second

theorem sortKeys_eq_of_reordered {entries others : Entries α}
    (reordered : Reordered Prod.fst entries others) : sortKeys entries = sortKeys others := by
  have same := sortedBy_eq_of_reordered ordersKeys reordered
  exact same

end Entries

mutual

/-- The same data but for the order of keys in objects, at any depth. -/
inductive Untyped.Alike : Untyped → Untyped → Prop
  | same (data : Untyped) : Untyped.Alike data data
  | list {items others : List Untyped} (each : ItemsAlike items others) :
      Untyped.Alike (.list items) (.list others)
  | object {entries middle others : Entries Untyped} (each : EntriesAlike entries middle)
      (reordered : Reordered Prod.fst middle others) :
      Untyped.Alike (.object entries) (.object others)

inductive ItemsAlike : List Untyped → List Untyped → Prop
  | nil : ItemsAlike [] []
  | cons {item other : Untyped} {items others : List Untyped} (first : item.Alike other)
      (rest : ItemsAlike items others) : ItemsAlike (item :: items) (other :: others)

inductive EntriesAlike : Entries Untyped → Entries Untyped → Prop
  | nil : EntriesAlike [] []
  | cons {data other : Untyped} {entries others : Entries Untyped} (key : String)
      (first : data.Alike other) (rest : EntriesAlike entries others) :
      EntriesAlike ((key, data) :: entries) ((key, other) :: others)

end

namespace EntriesAlike

theorem put {data other : Untyped} (key : String) (alike : data.Alike other) :
    {entries others : Entries Untyped} → EntriesAlike entries others →
      EntriesAlike (Entries.put key data entries) (Entries.put key other others)
  | _, _, .nil => .cons key alike .nil
  | _, _, .cons known first rest => by
      by_cases here : known = key
      · simpa only [Entries.put, here, if_true] using .cons key alike rest
      · simpa only [Entries.put, here, if_false] using .cons known first (rest.put key alike)

theorem bound {entries known : Entries Untyped} (alike : EntriesAlike entries known) :
    {pairs others : List (String × Untyped)} → EntriesAlike pairs others →
      EntriesAlike (pairs.foldl (fun entries (key, value) => Entries.put key value entries) entries)
        (others.foldl (fun entries (key, value) => Entries.put key value entries) known)
  | _, _, .nil => alike
  | _, _, .cons key first rest => (alike.put key first).bound rest

theorem ofList {pairs others : List (String × Untyped)} (each : EntriesAlike pairs others) :
    EntriesAlike (Entries.ofList pairs) (Entries.ofList others) :=
  EntriesAlike.nil.bound each

end EntriesAlike

theorem Untyped.entriesToJson_eq (entries : Entries Untyped) :
    entriesToJson entries =
      entries.filterMap fun entry => entry.2.toJson?.map fun json => (entry.1, json) := by
  induction entries with
  | nil => rfl
  | cons entry rest ih =>
      cases written : entry.2.toJson? <;> simp [entriesToJson, written, ih]

theorem Reordered.entriesToJson {entries others : Entries Untyped}
    (reordered : Reordered Prod.fst entries others) :
    Reordered Prod.fst (Untyped.entriesToJson entries) (Untyped.entriesToJson others) := by
  rw [Untyped.entriesToJson_eq, Untyped.entriesToJson_eq]
  apply reordered.filterMap
  intro entry written eq
  obtain ⟨_, _, rfl⟩ := Option.map_eq_some_iff.mp eq
  rfl

mutual

/-- JSON has its objects by ascending keys, so the order of keys is lost in it. -/
theorem Untyped.Alike.toJson_eq : {data other : Untyped} → data.Alike other →
    data.toJson? = other.toJson?
  | _, _, .same _ => rfl
  | _, _, .list each => by rw [Untyped.toJson?, Untyped.toJson?, each.toJson_eq]
  | _, _, .object each reordered => by
      rw [Untyped.toJson?, Untyped.toJson?, each.toJson_eq,
        Entries.sortKeys_eq_of_reordered reordered.entriesToJson]

theorem ItemsAlike.toJson_eq : {items others : List Untyped} → ItemsAlike items others →
    Untyped.itemsToJson items = Untyped.itemsToJson others
  | _, _, .nil => rfl
  | _, _, .cons first rest => by
      rw [Untyped.itemsToJson, Untyped.itemsToJson, first.toJson_eq, rest.toJson_eq]

theorem EntriesAlike.toJson_eq : {entries others : Entries Untyped} →
    EntriesAlike entries others → Untyped.entriesToJson entries = Untyped.entriesToJson others
  | _, _, .nil => rfl
  | _, _, .cons key first rest => by
      rw [Untyped.entriesToJson, Untyped.entriesToJson, first.toJson_eq, rest.toJson_eq]

end

theorem untypedFields_eq (bindings : Entries Untyped) (fields : List ObjectField) :
    untypedFields bindings fields =
      fields.map fun field => (field.key, field.value.untyped bindings) := by
  induction fields with
  | nil => rfl
  | cons field rest ih =>
      cases field
      rw [untypedFields, ih]
      rfl

mutual

/-- Rearranging the fields of a value only reorders what it means. -/
theorem Value.Rearranged.untyped (bindings : Entries Untyped) : {value other : Value} →
    value.Rearranged other → (value.untyped bindings).Alike (other.untyped bindings)
  | _, _, .same _ => .same _
  | _, _, .list each _ => .list (each.untyped bindings)
  | _, _, .object each reordered _ => by
      apply Untyped.Alike.object (each.untyped bindings).ofList
      apply Entries.reordered_ofList
      rw [untypedFields_eq, untypedFields_eq]
      exact reordered.map fun _ => rfl

theorem ItemsRearranged.untyped (bindings : Entries Untyped) : {items others : List Value} →
    ItemsRearranged items others →
      ItemsAlike (untypedItems bindings items) (untypedItems bindings others)
  | _, _, .nil => .nil
  | _, _, .cons first rest => .cons (first.untyped bindings) (rest.untyped bindings)

theorem FieldsRearranged.untyped (bindings : Entries Untyped) : {fields others : List ObjectField} →
    FieldsRearranged fields others →
      EntriesAlike (untypedFields bindings fields) (untypedFields bindings others)
  | _, _, .nil => .nil
  | _, _, .cons name _ first rest =>
      .cons name.value (first.untyped bindings) (rest.untyped bindings)

end

/-- The data of the last field of a name, with which an object is entered under it. -/
theorem lookup_untypedFields (bindings : Entries Untyped) (fields : List ObjectField)
    (name : String) :
    (Entries.ofList (untypedFields bindings fields)).lookup name =
      (fields.filter fun field => field.key = name).getLast?.map
        fun field => field.value.untyped bindings := by
  rw [Entries.lookup_ofList, untypedFields_eq, List.filter_map, List.getLast?_map,
    Option.map_map]
  rfl

/-- Sorting does not change what a value means, whatever the variables are bound to, if to anything.
The data are the same but for the order of keys, and the same as JSON. Under a name that is
repeated, the last of its fields counts before and after. -/
theorem Value.untyped_sorted (value : Value) (bindings : Option (Entries Untyped)) :
    (value.untyped (bindings.getD [])).Alike (value.sorted.untyped (bindings.getD [])) ∧
      (value.sorted.untyped (bindings.getD [])).toJson? =
        (value.untyped (bindings.getD [])).toJson? ∧
      ∀ fields loc, value = .object fields loc → ∃ entries ordered,
        value.untyped (bindings.getD []) = .object entries ∧
        value.sorted.untyped (bindings.getD []) = .object ordered ∧
        ∀ name,
          entries.lookup name =
            (fields.filter fun field => field.key = name).getLast?.map
              (fun field => field.value.untyped (bindings.getD [])) ∧
          ordered.lookup name =
            (fields.filter fun field => field.key = name).getLast?.map
              (fun field => field.value.sorted.untyped (bindings.getD [])) := by
  have alike := value.rearranged_sorted.untyped (bindings.getD [])
  constructor
  · exact alike
  constructor
  · exact alike.toJson_eq.symm
  · rintro fields loc rfl
    refine ⟨_, _, rfl, rfl, ?_⟩
    intro name
    constructor
    · exact lookup_untypedFields _ fields name
    · rw [lookup_untypedFields, sortFields_reordered (sortedFields fields) name, sortedFields_eq,
        List.filter_map, List.getLast?_map, Option.map_map]
      rfl

end GraphQL

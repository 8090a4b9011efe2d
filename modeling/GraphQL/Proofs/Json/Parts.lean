import GraphQL.Json.Decode
import GraphQL.Json.Encode
import GraphQL.Proofs.Relocate

/-!
The parts of an object that a node is written as. Each part is found under its key, nests less
deeply than the object, and is read back where its decoder inverts its encoder.
-/

namespace GraphQL

open Json

/-- What is written of an item that nests at most `levels` deep is read back as the item, with
some change to it. -/
def Inverts (levels : Nat) (decode : Json → Shaped α) (encode : α → Json) (change : α → α) :
    Prop :=
  ∀ item, (encode item).depth ≤ levels → decode (encode item) = .ok (change item)

theorem Inverts.mono {decode : Json → Shaped α} {encode : α → Json} {change : α → α}
    {fewer more : Nat} (inverts : Inverts more decode encode change) (le : fewer ≤ more) :
    Inverts fewer decode encode change :=
  fun item within => inverts item (Nat.le_trans within le)

/-! Depths. -/

theorem Json.depth_le_depthItems {item : Json} {items : List Json} (member : item ∈ items) :
    item.depth ≤ depthItems items := by
  induction member with
  | head rest => exact Nat.le_max_left _ _
  | tail first _ ih => exact Nat.le_trans ih (Nat.le_max_right _ _)

theorem Json.depth_le_depthEntries {key : String} {value : Json}
    {entries : List (String × Json)} (found : entries.lookup key = some value) :
    value.depth ≤ depthEntries entries := by
  induction entries with
  | nil => cases found
  | cons entry rest ih =>
      rw [List.lookup_cons] at found
      split at found
      · cases found
        exact Nat.le_max_left _ _
      · exact Nat.le_trans (ih found) (Nat.le_max_right _ _)

theorem depth_pos (json : Json) : 0 < json.depth := by
  cases json <;> simp [depth]

/-! What is found in a node's object. The entry `kind` stands first, the location last. -/

section
variable {kind : Kind} {entries : List (String × Json)} {loc : Option Location} {key : String}

theorem field?_nodeJson {value : Json}
    (found : (("kind", .string kind.text) :: entries).lookup key = some value) :
    (nodeJson kind entries loc).field? key = some value := by
  have whole : (nodeJson kind entries loc).field? key =
      ((("kind", .string kind.text) :: entries) ++ locEntry loc).lookup key := rfl
  rw [whole, List.lookup_append, found, Option.some_or]

theorem depth_part {value : Json} {levels : Nat}
    (found : (("kind", .string kind.text) :: entries).lookup key = some value)
    (within : (nodeJson kind entries loc).depth ≤ levels + 1) : value.depth ≤ levels := by
  have listed : (("kind", .string kind.text) :: (entries ++ locEntry loc)).lookup key =
      some value := field?_nodeJson found
  have part := depth_le_depthEntries listed
  exact Nat.le_trans part (Nat.le_of_succ_le_succ within)

theorem kind?_nodeJson : (nodeJson kind entries loc).kind? = some kind := by
  have text : Kind.ofText? kind.text = some kind := by cases kind <;> decide
  exact text

end

/-! What is read from a node's object. -/

section
variable {kind : Kind} {entries : List (String × Json)} {loc : Option Location} {key : String}
  {levels : Nat} {decode : Json → Shaped α} {encode : α → Json} {change : α → α}

theorem bind_ok {first : Shaped α} {next : α → Shaped β} {part : α} {whole : β}
    (found : first = .ok part) (rest : next part = .ok whole) : (first >>= next) = .ok whole := by
  rw [found]
  exact rest

theorem map_ok {first : Shaped α} {part : α} (wrap : α → β) (found : first = .ok part) :
    (wrap <$> first) = .ok (wrap part) := by
  rw [found]
  rfl

theorem toCount_ofNat (count : Nat) : (Json.ofNat count).toCount = .ok count := by
  simp [Json.ofNat, toCount]

theorem Position.ofJson_toJson (position : Position) :
    Position.ofJson position.toJson = .ok position :=
  bind_ok (toCount_ofNat position.line) (bind_ok (toCount_ofNat position.column) rfl)

theorem Location.ofJson_toJson (loc : Location) :
    Location.ofJson loc.toJson = .ok loc.withoutSource :=
  bind_ok (toCount_ofNat loc.start) (bind_ok (toCount_ofNat loc.stop)
    (bind_ok loc.startPosition.ofJson_toJson (bind_ok loc.endPosition.ofJson_toJson rfl)))

theorem mapM_ok {items : List α}
    (each : ∀ item ∈ items, decode (encode item) = .ok (change item)) :
    (items.map encode).mapM decode = .ok (items.map change) := by
  induction items with
  | nil => rfl
  | cons item rest ih =>
      rw [List.map_cons, List.mapM_cons]
      exact bind_ok (each item List.mem_cons_self)
        (bind_ok (ih fun later member => each later (List.mem_cons_of_mem item member)) rfl)

theorem locOf_nodeJson
    (absent : (("kind", .string kind.text) :: entries).lookup "loc" = none) :
    locOf (nodeJson kind entries loc) = .ok (unsourced loc) := by
  have whole : (nodeJson kind entries loc).field? "loc" =
      ((("kind", .string kind.text) :: entries) ++ locEntry loc).lookup "loc" := rfl
  rw [List.lookup_append, absent, Option.none_or] at whole
  rw [locOf, Json.optional, whole]
  cases loc with
  | none => rfl
  | some loc => exact map_ok some (Location.ofJson_toJson loc)

theorem flag_nodeJson {flag : Bool}
    (found : (("kind", .string kind.text) :: entries).lookup key = some (.bool flag)) :
    (nodeJson kind entries loc).flag key = .ok flag := by
  rw [Json.flag, field?_nodeJson found]
  rfl

variable (inverts : Inverts levels decode encode change)
  (within : (nodeJson kind entries loc).depth ≤ levels + 1)
include inverts within

theorem Inverts.required (key : String) {item : α}
    (found : (("kind", .string kind.text) :: entries).lookup key = some (encode item)) :
    (nodeJson kind entries loc).required key decode = .ok (change item) := by
  rw [Json.required, field?_nodeJson found]
  exact inverts item (depth_part found within)

theorem Inverts.listed (key : String) {items : List α}
    (found : (("kind", .string kind.text) :: entries).lookup key = some (.ofList encode items)) :
    (nodeJson kind entries loc).listed key decode = .ok (items.map change) := by
  have depth : (Json.ofList encode items).depth ≤ levels := depth_part found within
  rw [Json.listed, field?_nodeJson found]
  refine mapM_ok fun item member => inverts item ?_
  have part : (encode item).depth ≤ depthItems (items.map encode) :=
    depth_le_depthItems (List.mem_map_of_mem member)
  exact Nat.le_trans part (Nat.le_trans (Nat.le_succ _) depth)

theorem Inverts.optional (key : String) (proper : ∀ item, encode item ≠ .null)
    {part : Option α}
    (found : (("kind", .string kind.text) :: entries).lookup key = some (.ofOption encode part)) :
    (nodeJson kind entries loc).optional key decode = .ok (part.map change) := by
  have depth := depth_part found within
  rw [Json.optional, field?_nodeJson found]
  cases part with
  | none => rfl
  | some item =>
      simp only [Json.ofOption] at depth ⊢
      split
      · next missing => cases missing
      · next null => exact absurd (Option.some.inj null) (proper item)
      · next value _ written =>
          cases written
          exact map_ok some (inverts item depth)

end

end GraphQL

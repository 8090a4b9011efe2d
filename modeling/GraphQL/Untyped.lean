import GraphQL.Entries
import GraphQL.Json.Basic
import GraphQL.Number.Numeral
import GraphQL.Tree.Value

/-!
Data without types, as a value denotes it before its type is known. An integer takes at most
64 bits; larger ones become doubles. `undefined` stands for a variable that has no value.
-/

namespace GraphQL

inductive Untyped where
  | undefined
  | null
  | boolean (value : Bool)
  | int (value : Int)
  | float (value : Binary64)
  | string (value : String)
  | list (items : List Untyped)
  | object (entries : List (String × Untyped))

namespace Untyped

def isUndefined : Untyped → Bool
  | undefined => true
  | _ => false

def floatOf (text : String) : Binary64 := (Numeral.decimal? text.toList).getD .nan

def intOf (text : String) : Untyped :=
  match Numeral.int64? text.toList with
  | some value => int value
  | none => float (floatOf text)

mutual

/-- The data as JSON. What is undefined has no JSON: objects drop it and lists write null,
as do the numbers that are not finite. Objects are written by ascending keys. -/
def toJson? : Untyped → Option Json
  | undefined => none
  | null => some .null
  | boolean value => some (.bool value)
  | int value => some (.int value)
  | float value => some (if value.isFinite then .float value else .null)
  | string value => some (.string value)
  | list items => some (.array (itemsToJson items))
  | object entries => some (.object (Entries.sortKeys (entriesToJson entries)))

def itemsToJson : List Untyped → List Json
  | [] => []
  | item :: rest => (toJson? item).getD .null :: itemsToJson rest

def entriesToJson : List (String × Untyped) → List (String × Json)
  | [] => []
  | (key, value) :: rest =>
      match toJson? value with
      | some json => (key, json) :: entriesToJson rest
      | none => entriesToJson rest

end

mutual

def ofJson : Json → Untyped
  | .null => null
  | .bool value => boolean value
  | .int value =>
      if Numeral.minInt64 ≤ value ∧ value ≤ Numeral.maxInt64 then int value
      else float (.ofInt value)
  | .float value => float value
  | .string value => string value
  | .array items => list (itemsOfJson items)
  | .object entries => object (Entries.ofList (entriesOfJson entries))

def itemsOfJson : List Json → List Untyped
  | [] => []
  | item :: rest => ofJson item :: itemsOfJson rest

def entriesOfJson : List (String × Json) → List (String × Untyped)
  | [] => []
  | (key, value) :: rest => (key, ofJson value) :: entriesOfJson rest

end

end Untyped

mutual

/-- The data that a value denotes when variables are bound as given. Of fields with equal
names the last one counts, in the place of the first. -/
def Value.untyped (bindings : Entries Untyped) : Value → Untyped
  | .var reference => (bindings.lookup reference.name.value).getD .undefined
  | .int text _ => .intOf text
  | .float text _ => .float (Untyped.floatOf text)
  | .string literal => .string literal.value
  | .boolean value _ => .boolean value
  | .null _ => .null
  | .enum name _ => .string name
  | .list items _ => .list (untypedItems bindings items)
  | .object fields _ => .object (Entries.ofList (untypedFields bindings fields))

def untypedItems (bindings : Entries Untyped) : List Value → List Untyped
  | [] => []
  | item :: rest => item.untyped bindings :: untypedItems bindings rest

def untypedFields (bindings : Entries Untyped) : List ObjectField → List (String × Untyped)
  | [] => []
  | ⟨name, value, _⟩ :: rest =>
      (name.value, value.untyped bindings) :: untypedFields bindings rest

end

end GraphQL

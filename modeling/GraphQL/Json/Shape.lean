import GraphQL.Json.Text
import GraphQL.Tree.Kind

/-!
Reading the parts of a JSON object. A shape error tells why an object is not the node it
should be; where a part only has the wrong JSON type, the error says no more than that.
-/

namespace GraphQL

inductive ShapeError where
  | missingPart (key : String)
  /-- An object without a kind, or with one that no node has, where the kind decides. -/
  | unknownKind (value : Json)
  /-- A node of a kind that does not belong where it stands. -/
  | wrongGroup (expected : String) (found : Kind)
  | mismatch

namespace ShapeError

def message? : ShapeError → Option String
  | missingPart key => some ("missing field `" ++ key ++ "`")
  | unknownKind value => some ("missing or unrecognized node kind in " ++ value.inspect)
  | wrongGroup expected found => some ("expected " ++ expected ++ ", found " ++ found.text)
  | mismatch => none

end ShapeError

abbrev Shaped (α : Type) := Except ShapeError α

namespace Json

def required (json : Json) (key : String) (decode : Json → Shaped α) : Shaped α :=
  match json.field? key with
  | none => .error (.missingPart key)
  | some value => decode value

def optional (json : Json) (key : String) (decode : Json → Shaped α) : Shaped (Option α) :=
  match json.field? key with
  | none | some .null => .ok none
  | some value => some <$> decode value

def listed (json : Json) (key : String) (decode : Json → Shaped α) : Shaped (List α) :=
  match json.field? key with
  | none => .ok []
  | some (.array items) => items.mapM decode
  | some _ => .error .mismatch

def toBool : Json → Shaped Bool
  | bool value => .ok value
  | _ => .error .mismatch

def flag (json : Json) (key : String) : Shaped Bool :=
  match json.field? key with
  | none => .ok false
  | some value => value.toBool

def toText : Json → Shaped String
  | string value => .ok value
  | _ => .error .mismatch

def toCount : Json → Shaped Nat
  | int value => if 0 ≤ value then .ok value.toNat else .error .mismatch
  | _ => .error .mismatch

def parts (decode : Json → Shaped α) (json : Json) : Shaped α :=
  match json with
  | object _ => decode json
  | _ => .error .mismatch

end Json

end GraphQL

/-
# What is made JSON

What `properties` in `introspection/proxy` makes JSON of the values of `core/value`.

A value is described before it is made JSON: a `Json.Draft` may have anything for the keys of a map,
where a JSON object has texts only, and any double, where JSON has finite ones.

| described | made |
| --- | --- |
| a map whose keys are texts | an object, the last entry of a key deciding |
| a map with another key | nothing: making JSON of it fails |
| a record | an object |
| a double that is not finite | null |
-/

import Arbor.Json.Basic

namespace Arbor
namespace Json

/-- A description of a value. -/
inductive Draft
  | bool (b : Bool)
  | int (i : Int)
  | double (d : Binary64)
  | str (s : String)
  | list (items : List Draft)
  | map (entries : List (Draft × Draft))
  | record (fields : List (String × Draft))

namespace Draft

/-- The key of an object. -/
def key : Draft → Except String String
  | .str s => .ok s
  | _ => .error "key must be a string"

mutual

/-- The JSON value that is described. -/
def toJson : Draft → Except String Json
  | .bool b => .ok (.bool b)
  | .int i => .ok (.int i)
  | .double d => .ok (if d.isFinite then .double d else .null)
  | .str s => .ok (.str s)
  | .list items => (itemsToJson items).map .arr
  | .map entries => (entriesToJson entries).map Json.object
  | .record fields => (fieldsToJson fields).map Json.object

/-- The items of a list. -/
def itemsToJson : List Draft → Except String (List Json)
  | [] => .ok []
  | item :: rest => do
    let json ← toJson item
    return json :: (← itemsToJson rest)

/-- The entries of a map, up to the first that has no key. -/
def entriesToJson : List (Draft × Draft) → Except String (List (String × Json))
  | [] => .ok []
  | (name, value) :: rest => do
    let name ← key name
    let json ← toJson value
    return (name, json) :: (← entriesToJson rest)

/-- The fields of a record. -/
def fieldsToJson : List (String × Draft) → Except String (List (String × Json))
  | [] => .ok []
  | (name, value) :: rest => do
    let json ← toJson value
    return (name, json) :: (← fieldsToJson rest)

end

end Draft
end Json
end Arbor

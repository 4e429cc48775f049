/-
# Nodes

`core/node`: `decode` is `materialize`, `childNames` is `child_type_names`, `satisfies` is `matches`
and `typeName` is `type_name` of `Node`.  An `Entry` is a `RawNode` of `core/traits`.

A node is one entry of a reply, decoded: the path of an object, its id, and its attributes.

| attribute | |
| --- | --- |
| `id` | required, a plain integer of 64 bits; not among the attributes |
| `Children` | a list of type names; not among the attributes |
| `globalRect` | also kept apart when it is a rectangle |

Either everything decodes or the entry is refused.  The id is looked at first, the other attributes
by ascending name.
-/

import Arbor.Event
import Arbor.Failure
import Arbor.Literal.Basic
import Arbor.Path

namespace Arbor

/-- Decoded attributes by ascending name. -/
abbrev Attributes := List (String × Value)

/-- An entry of a reply, not decoded: a path, and wire arrays by ascending name. -/
structure Entry where
  path : String
  state : List (String × Json)

/-- A snapshot of an object. -/
structure Node where
  path : String
  id : Int64
  attributes : Attributes
  /-- The type names of the children, where the remote side gives them. -/
  children : Option (List String)
  /-- The place on the screen. -/
  globalRect : Option Rectangle
deriving DecidableEq

namespace Node

/-- The type of the object. -/
def typeName (n : Node) : String := Path.typeName n.path

/-- An attribute; `id` and `Children` are none. -/
def attribute? (n : Node) (name : String) : Option Value := Keyed.find? name n.attributes

/-- Whether an attribute equals a literal.  The id is compared as an integer, with a literal that is
an integer or a plain integer value. -/
def satisfies (n : Node) (key : String) (literal : Literal) : Bool :=
  if key = "id" then
    match literal with
    | .int i => i == n.id
    | .value (.plain (.int i)) => i.toInt == n.id.toInt
    | _ => false
  else
    match n.attribute? key with
    | some v => literal.accepts v
    | none => false

/-- Why `Children` is no list of type names. -/
inductive ChildrenFault
  | notText (item : Plain)
  | notList (v : Value)

/-- The wording of a fault. -/
def ChildrenFault.message : ChildrenFault → String
  | .notText item => s!"child type names must be strings, got {item.shown}"
  | .notList v => s!"expected a list of child type names, got {v.shown}"

/-- A list of texts, up to the first item that is none. -/
def textItems : List Plain → Except ChildrenFault (List String)
  | [] => .ok []
  | .text s :: rest => (textItems rest).map (s :: ·)
  | item :: _ => .error (.notText item)

/-- The type names that a value of `Children` gives. -/
def childNames : Value → Except ChildrenFault (List String)
  | .plain (.list items) => textItems items
  | v => .error (.notList v)

/-- The attributes and the type names of the children. -/
def decodeState : List (String × Json) → Except Failure (Attributes × Option (List String))
  | [] => .ok ([], none)
  | (name, raw) :: rest =>
    if name = "id" then decodeState rest
    else
      match Value.decode raw with
      | .error fault => .error (.valueDecode (some name) fault.message)
      | .ok v =>
        if name = "Children" then
          match childNames v with
          | .error fault => .error (.valueDecode (some name) fault.message)
          | .ok names => (decodeState rest).map fun r => (r.1, some names)
        else (decodeState rest).map fun r => ((name, v) :: r.1, r.2)

/-- The rectangle among attributes under `globalRect`. -/
def rectangleOf (attributes : Attributes) : Option Rectangle :=
  match Keyed.find? "globalRect" attributes with
  | some (.rectangle r) => some r
  | _ => none

/-- The node that an entry stands for. -/
def decode (e : Entry) : Except Failure Node :=
  match Keyed.find? "id" e.state with
  | none => .error (.malformedNode e.path "missing required 'id' attribute")
  | some raw =>
    match Value.decodeId raw with
    | .error fault =>
      .error (.malformedNode e.path (Failure.valueDecode none fault.message).message)
    | .ok id =>
      match decodeState e.state with
      | .error failure => .error failure
      | .ok (attributes, children) =>
        .ok ⟨e.path, id, attributes, children, rectangleOf attributes⟩

/-- What is reported when a node has been decoded. -/
def events (n : Node) : List Event :=
  let odd := match n.attribute? "globalRect" with
    | some (.rectangle _) => []
    | some v =>
      [⟨.warn, "globalRect is not a rectangle", [("path", n.path), ("kind", v.kind.name)]⟩]
    | none => []
  odd ++ [⟨.debug, "Materialized node",
    [("path", n.path), ("id", toString n.id.toInt), ("attributes", toString n.attributes.length)]⟩]

/-- The JSON form. -/
def toJson (n : Node) : Json :=
  Json.object [
    ("path", .str n.path),
    ("id", .int n.id.toInt),
    ("attributes", .obj (n.attributes.map fun a => (a.1, a.2.toTagged))),
    ("children", match n.children with
      | some names => .arr (names.map .str)
      | none => .null),
    ("global_rect", match n.globalRect with
      | some r => Json.object (Kind.rectangle.fieldNames.zip
          ((Value.rectangle r).fields.map .int))
      | none => .null)]

end Node
end Arbor

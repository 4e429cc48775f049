/-
# Values by name

The form of `WireValue` and `PlainValue` in `core/value` that names its variants.

The form of values in JSON that names the kind: `{"kind": …, "value": …}`, a record by its field
names, a plain value as it is.  The reader also takes both levels by position, `["point", [1, 2]]`.

It takes the first plain variant that fits: an integer that is not within 32 bits is read as a
double, and null as nothing.  Colours and times are not checked.

`Value.draft` is what a value is described as when it is made JSON; for a value that came over the
wire the tagged form is what is made of it.
-/

import Arbor.Json.Draft
import Arbor.Value.Shown
import Arbor.Value.Wire

namespace Arbor
namespace Value

/-- The tagged form of a value. -/
def toTagged (v : Value) : Json :=
  let content := match v with
    | .plain p => encodePlain p
    | v => Json.object (v.kind.fieldNames.zip (v.fields.map .int))
  Json.object [("kind", .str v.kind.tag), ("value", content)]

mutual

/-- A plain value, described. -/
def draftPlain : Plain → Json.Draft
  | .bool b => .bool b
  | .int i => .int i.toInt
  | .double d => .double d
  | .text s => .str s
  | .list items => .list (draftItems items)
  | .map entries => .map (draftEntries entries)

/-- The items of a list, described. -/
def draftItems : List Plain → List Json.Draft
  | [] => []
  | item :: rest => draftPlain item :: draftItems rest

/-- The entries of a map, described. -/
def draftEntries : List (String × Plain) → List (Json.Draft × Json.Draft)
  | [] => []
  | (key, value) :: rest => (.str key, draftPlain value) :: draftEntries rest

end

/-- A value by name, described. -/
def draft (v : Value) : Json.Draft :=
  let content := match v with
    | .plain p => draftPlain p
    | v => .record (v.kind.fieldNames.zip (v.fields.map .int))
  .record [("kind", .str v.kind.tag), ("value", content)]

mutual

/-- A plain value. -/
def readPlain? : Json → Option Plain
  | .null => none
  | .bool b => some (.bool b)
  | .int i => some (if Json.inInt32 i then .int (Int32.ofInt i) else .double (Binary64.ofInt i))
  | .double d => some (.double d)
  | .str s => some (.text s)
  | .arr items => (readItems? items).map .list
  | .obj entries => (readEntries? entries).map .map

/-- The items of a list. -/
def readItems? : List Json → Option (List Plain)
  | [] => some []
  | item :: rest =>
    match readPlain? item with
    | some p => (readItems? rest).map (p :: ·)
    | none => none

/-- The entries of a map. -/
def readEntries? : List (String × Json) → Option (List (String × Plain))
  | [] => some []
  | (key, value) :: rest =>
    match readPlain? value with
    | some p => (readEntries? rest).map ((key, p) :: ·)
    | none => none

end

/-- The fields of a record, by name or by position. -/
def recordFields? (names : List String) : Json → Option (List Json)
  | .arr items => if items.length = names.length then some items else none
  | .obj entries => names.mapM fun name => Keyed.find? name entries
  | _ => none

/-- An integer of 32 bits. -/
def readInt32? : Json → Option Int32
  | .int i => if Json.inInt32 i then some (Int32.ofInt i) else none
  | _ => none

/-- The content of a kind. -/
def readContent? (kind : Kind) (content : Json) : Option Value := do
  match kind with
  | .plain => return .plain (← readPlain? content)
  | .dateTime =>
    match ← recordFields? kind.fieldNames content with
    | [timestamp] => return .dateTime ⟨← timestamp.int64?⟩
    | _ => none
  | kind =>
    let fields ← (← recordFields? kind.fieldNames content).mapM readInt32?
    match kind, fields with
    | .rectangle, [x, y, w, h] => return .rectangle ⟨x, y, w, h⟩
    | .point, [x, y] => return .point ⟨x, y⟩
    | .size, [w, h] => return .size ⟨w, h⟩
    | .color, [r, g, b, a] => return .color ⟨r, g, b, a⟩
    | .time, [hour, minute, second, millisecond] =>
      return .time ⟨hour, minute, second, millisecond⟩
    | .point3D, [x, y, z] => return .point3D ⟨x, y, z⟩
    | _, _ => none

/-- The value with a tagged form. -/
def ofTagged? (json : Json) : Option Value := do
  match ← recordFields? ["kind", "value"] json with
  | [.str tag, content] => readContent? (← Kind.ofTag? tag) content
  | _ => none

end Value
end Arbor

/-
# Values on the wire

`core/value`: `decode` is `decode_value`, `decodePlain` is `decode_plain`, `decodeId` is
`decode_object_id`, `encode` is `encode_value`, `encodePlain` is `encode_plain`.

A value travels as the array `[kind id, field, …]` with as many fields as its kind has.  An integer
outside 32 bits is refused, never turned into a double; only a number written as a double is one.
`Value.decode` looks at the array from left to right and refuses at the first thing wrong, and at
colours and times last.

The id of an object is a plain integer of 64 bits, `[0, id]`.
-/

import Arbor.Json.Writer
import Arbor.Value.Basic

namespace Arbor

namespace Value

/-- Why an array is not a value. -/
inductive Fault
  | notArray (raw : Json)
  | noHead
  | headNotInteger (head : Json)
  | unknownKind (id : Int64)
  | fieldCount (kind : Kind) (found : Nat)
  | notInteger (raw : Json)
  | outsideInt32 (i : Int64)
  | null
  | channel (name : String) (value : Int32)
  | timeOfDay (t : TimeOfDay)
  | notObjectId (raw : Json)

/-- The wording of a fault. -/
def Fault.message : Fault → String
  | .notArray raw => s!"expected a value array, got {raw.write}"
  | .noHead => "empty value array"
  | .headNotInteger head => s!"type id must be an integer, got {head.write}"
  | .unknownKind id => s!"unknown type id {id.toInt}"
  | .fieldCount kind found => s!"{kind.name} needs {kind.arity} values, got {found}"
  | .notInteger raw => s!"expected a 64-bit integer, got {raw.write}"
  | .outsideInt32 i => s!"integer {i.toInt} outside the signed 32-bit range"
  | .null => "null is not a plain value"
  | .channel name value => s!"color {name} channel {value.toInt} outside 0..=255"
  | .timeOfDay t =>
    "invalid time " ++ Text.padInt 2 t.hour.toInt ++ ":" ++ Text.padInt 2 t.minute.toInt ++ ":" ++
      Text.padInt 2 t.second.toInt ++ "." ++ Text.padInt 3 t.millisecond.toInt
  | .notObjectId raw => s!"expected a plain integer id, got {raw.write}"

/-- An integer of 64 bits. -/
def int64 (raw : Json) : Except Fault Int64 :=
  match raw.int64? with
  | some i => .ok i
  | none => .error (.notInteger raw)

/-- An integer of 32 bits. -/
def int32 (raw : Json) : Except Fault Int32 :=
  match int64 raw with
  | .ok i => if Json.inInt32 i.toInt then .ok (Int32.ofInt i.toInt) else .error (.outsideInt32 i)
  | .error f => .error f

mutual

/-- A plain value. -/
def decodePlain : Json → Except Fault Plain
  | .null => .error .null
  | .bool b => .ok (.bool b)
  | .int i => (int32 (.int i)).map .int
  | .double d => .ok (.double d)
  | .str s => .ok (.text s)
  | .arr items => (decodeItems items).map .list
  | .obj entries => (decodeEntries entries).map .map

/-- The items of a list, up to the first that is refused. -/
def decodeItems : List Json → Except Fault (List Plain)
  | [] => .ok []
  | item :: rest =>
    match decodePlain item with
    | .ok p => (decodeItems rest).map (p :: ·)
    | .error f => .error f

/-- The entries of a map, up to the first that is refused. -/
def decodeEntries : List (String × Json) → Except Fault (List (String × Plain))
  | [] => .ok []
  | (key, value) :: rest =>
    match decodePlain value with
    | .ok p => (decodeEntries rest).map ((key, p) :: ·)
    | .error f => .error f

end

/-- A colour whose channels are all in range. -/
def checkColor (c : Color) : Except Fault Value :=
  match c.channels.find? fun channel => !Color.inRange channel.2 with
  | some channel => .error (.channel channel.1 channel.2)
  | none => .ok (.color c)

/-- A time that a clock can show. -/
def checkTime (t : TimeOfDay) : Except Fault Value :=
  if t.isValid then .ok (.time t) else .error (.timeOfDay t)

/-- The fields of a kind, as many as it has. -/
def decodeFields : Kind → List Json → Except Fault Value
  | .plain, [p] => (decodePlain p).map .plain
  | .rectangle, [x, y, w, h] => do
    return .rectangle ⟨← int32 x, ← int32 y, ← int32 w, ← int32 h⟩
  | .point, [x, y] => do return .point ⟨← int32 x, ← int32 y⟩
  | .size, [w, h] => do return .size ⟨← int32 w, ← int32 h⟩
  | .color, [r, g, b, a] => do
    checkColor ⟨← int32 r, ← int32 g, ← int32 b, ← int32 a⟩
  | .dateTime, [timestamp] => do return .dateTime ⟨← int64 timestamp⟩
  | .time, [hour, minute, second, millisecond] => do
    checkTime ⟨← int32 hour, ← int32 minute, ← int32 second, ← int32 millisecond⟩
  | .point3D, [x, y, z] => do return .point3D ⟨← int32 x, ← int32 y, ← int32 z⟩
  | kind, fields => .error (.fieldCount kind fields.length)

/-- The value that an array stands for. -/
def decode : Json → Except Fault Value
  | .arr [] => .error .noHead
  | .arr (head :: fields) =>
    match head.int64? with
    | none => .error (.headNotInteger head)
    | some id =>
      match Kind.ofId? id.toInt with
      | none => .error (.unknownKind id)
      | some kind => decodeFields kind fields
  | raw => .error (.notArray raw)

/-- The id of an object. -/
def decodeId : Json → Except Fault Int64
  | .arr [head, id] =>
    if head.int64? = some 0 then int64 id else .error (.notObjectId (.arr [head, id]))
  | raw => .error (.notObjectId raw)

mutual

/-- A plain value on the wire.  An infinity or a NaN has no number there and becomes null. -/
def encodePlain : Plain → Json
  | .bool b => .bool b
  | .int i => .int i.toInt
  | .double d => if d.isFinite then .double d else .null
  | .text s => .str s
  | .list items => .arr (encodeItems items)
  | .map entries => .obj (encodeEntries entries)

/-- The items of a list. -/
def encodeItems : List Plain → List Json
  | [] => []
  | item :: rest => encodePlain item :: encodeItems rest

/-- The entries of a map. -/
def encodeEntries : List (String × Plain) → List (String × Json)
  | [] => []
  | (key, value) :: rest => (key, encodePlain value) :: encodeEntries rest

end

/-- The array that stands for a value. -/
def encode : Value → Json
  | .plain p => .arr [.int 0, encodePlain p]
  | v => .arr (.int v.kind.id :: v.fields.map .int)

end Value
end Arbor

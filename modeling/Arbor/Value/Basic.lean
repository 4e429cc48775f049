/-
# Attribute values

`core/value`: `Kind` is `ValueType`, `Plain` is `PlainValue`, `Value` is `WireValue`,
`Color.inRange` and `TimeOfDay.isValid` are the checks of `Color` and `Time` in their `new`.

| kind | id | fields |
| --- | ---: | --- |
| plain | 0 | a boolean, a 32-bit integer, a double, a text, a list or a map of plain values |
| rectangle | 1 | `x`, `y`, `w`, `h` |
| point | 2 | `x`, `y` |
| size | 3 | `w`, `h` |
| color | 4 | `r`, `g`, `b`, `a`, each from 0 to 255 |
| date and time | 5 | seconds since 1970, 64 bits |
| time of day | 6 | hour, minute, second, millisecond |
| point in space | 7 | `x`, `y`, `z` |

Fields are signed 32-bit integers unless said otherwise.  `Value.WellFormed` is what every value has
that came over the wire: colours and times in range, doubles finite, the keys of maps ascending.
-/

import Arbor.Json.Basic

namespace Arbor

/-- The kinds of values. -/
inductive Kind
  | plain
  | rectangle
  | point
  | size
  | color
  | dateTime
  | time
  | point3D
deriving DecidableEq

namespace Kind

/-- All kinds by id. -/
def all : List Kind := [.plain, .rectangle, .point, .size, .color, .dateTime, .time, .point3D]

/-- The number that stands for a kind on the wire. -/
def id : Kind → Nat
  | .plain => 0
  | .rectangle => 1
  | .point => 2
  | .size => 3
  | .color => 4
  | .dateTime => 5
  | .time => 6
  | .point3D => 7

/-- The kind with an id. -/
def ofId? (id : Int) : Option Kind := all.find? fun k => (k.id : Int) == id

/-- The number of fields. -/
def arity : Kind → Nat
  | .plain | .dateTime => 1
  | .point | .size => 2
  | .point3D => 3
  | .rectangle | .color | .time => 4

/-- The name in messages. -/
def name : Kind → String
  | .plain => "Plain"
  | .rectangle => "Rectangle"
  | .point => "Point"
  | .size => "Size"
  | .color => "Color"
  | .dateTime => "DateTime"
  | .time => "Time"
  | .point3D => "Point3D"

/-- The tag in JSON. -/
def tag : Kind → String
  | .plain => "plain"
  | .rectangle => "rectangle"
  | .point => "point"
  | .size => "size"
  | .color => "color"
  | .dateTime => "date_time"
  | .time => "time"
  | .point3D => "point3_d"

/-- The kind with a tag. -/
def ofTag? (tag : String) : Option Kind := all.find? fun k => k.tag == tag

end Kind

/-- A plain value. -/
inductive Plain
  | bool (b : Bool)
  | int (i : Int32)
  | double (d : Binary64)
  | text (s : String)
  | list (items : List Plain)
  | map (entries : List (String × Plain))

/-- A position and an extent. -/
structure Rectangle where
  x : Int32
  y : Int32
  w : Int32
  h : Int32
deriving DecidableEq

/-- A position on the screen. -/
structure Point where
  x : Int32
  y : Int32
deriving DecidableEq

/-- An extent. -/
structure Size where
  w : Int32
  h : Int32
deriving DecidableEq

/-- Red, green, blue and opacity. -/
structure Color where
  r : Int32
  g : Int32
  b : Int32
  a : Int32
deriving DecidableEq

/-- Seconds since the start of 1970, UTC. -/
structure DateTime where
  timestamp : Int64
deriving DecidableEq

/-- A time of day. -/
structure TimeOfDay where
  hour : Int32
  minute : Int32
  second : Int32
  millisecond : Int32
deriving DecidableEq

/-- A position in space. -/
structure Point3D where
  x : Int32
  y : Int32
  z : Int32
deriving DecidableEq

/-- A value of an attribute. -/
inductive Value
  | plain (p : Plain)
  | rectangle (r : Rectangle)
  | point (p : Point)
  | size (s : Size)
  | color (c : Color)
  | dateTime (d : DateTime)
  | time (t : TimeOfDay)
  | point3D (p : Point3D)

/-- The nearest 32-bit integer. -/
def clampInt32 (i : Int) : Int32 :=
  if i < -0x80000000 then Int32.ofInt (-0x80000000)
  else if 0x80000000 ≤ i then Int32.ofInt 0x7FFFFFFF
  else Int32.ofInt i

/-- The centre: the position plus half the extent, rounded toward zero, kept within 32 bits. -/
def Rectangle.center (r : Rectangle) : Point :=
  ⟨clampInt32 (r.x.toInt + r.w.toInt.tdiv 2), clampInt32 (r.y.toInt + r.h.toInt.tdiv 2)⟩

/-- The channels with their names, in the order in which they are looked at. -/
def Color.channels (c : Color) : List (String × Int32) :=
  [("red", c.r), ("green", c.g), ("blue", c.b), ("alpha", c.a)]

/-- A channel from 0 to 255. -/
def Color.inRange (channel : Int32) : Bool := 0 ≤ channel.toInt && channel.toInt ≤ 255

/-- A time that a clock can show: no leap second, no 24 o'clock. -/
def TimeOfDay.isValid (t : TimeOfDay) : Bool :=
  0 ≤ t.hour.toInt && t.hour.toInt < 24 && 0 ≤ t.minute.toInt && t.minute.toInt < 60 &&
    0 ≤ t.second.toInt && t.second.toInt < 60 &&
    0 ≤ t.millisecond.toInt && t.millisecond.toInt < 1000

namespace Plain

mutual

/-- Doubles are finite and keys ascend, at any depth. -/
def WellFormed : Plain → Prop
  | .bool _ | .int _ | .text _ => True
  | .double d => d.isFinite
  | .list items => WellFormedItems items
  | .map entries => Keyed.Ascending entries ∧ WellFormedEntries entries

/-- Every item is well formed. -/
def WellFormedItems : List Plain → Prop
  | [] => True
  | item :: rest => WellFormed item ∧ WellFormedItems rest

/-- Every entry's value is well formed. -/
def WellFormedEntries : List (String × Plain) → Prop
  | [] => True
  | (_, value) :: rest => WellFormed value ∧ WellFormedEntries rest

end

end Plain

namespace Value

def kind : Value → Kind
  | .plain _ => .plain
  | .rectangle _ => .rectangle
  | .point _ => .point
  | .size _ => .size
  | .color _ => .color
  | .dateTime _ => .dateTime
  | .time _ => .time
  | .point3D _ => .point3D

/-- The fields that are integers, in the order of the wire. -/
def fields : Value → List Int
  | .plain _ => []
  | .rectangle r => [r.x.toInt, r.y.toInt, r.w.toInt, r.h.toInt]
  | .point p => [p.x.toInt, p.y.toInt]
  | .size s => [s.w.toInt, s.h.toInt]
  | .color c => [c.r.toInt, c.g.toInt, c.b.toInt, c.a.toInt]
  | .dateTime d => [d.timestamp.toInt]
  | .time t => [t.hour.toInt, t.minute.toInt, t.second.toInt, t.millisecond.toInt]
  | .point3D p => [p.x.toInt, p.y.toInt, p.z.toInt]

def ofBool (b : Bool) : Value := .plain (.bool b)

def ofInt32 (i : Int32) : Value := .plain (.int i)

def ofDouble (d : Binary64) : Value := .plain (.double d)

def ofText (s : String) : Value := .plain (.text s)

def bool? : Value → Option Bool
  | .plain (.bool b) => some b
  | _ => none

def int? : Value → Option Int32
  | .plain (.int i) => some i
  | _ => none

def double? : Value → Option Binary64
  | .plain (.double d) => some d
  | _ => none

def text? : Value → Option String
  | .plain (.text s) => some s
  | _ => none

def rectangle? : Value → Option Rectangle
  | .rectangle r => some r
  | _ => none

/-- What every value has that came over the wire. -/
def WellFormed : Value → Prop
  | .plain p => p.WellFormed
  | .color c => ∀ channel ∈ c.channels, Color.inRange channel.2
  | .time t => t.isValid
  | _ => True

end Value
end Arbor

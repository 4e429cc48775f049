/-
# Values in diagnostics

How the messages of `core/node` and `introspection/proxy` show the values of `core/value`.

A plain value shows its variant and content, `Int(1)` or `Text("x")`; a double is wrapped twice; a
value of another kind shows its kind and its fields by name: `Point(Point { x: 1, y: 2 })`.
-/

import Arbor.Binary64.Shortest
import Arbor.Text.Shown
import Arbor.Value.Basic

namespace Arbor

/-- Doubles in diagnostics: positional from `0.0001` to below `10^16`, and otherwise with a plain
exponent. -/
def shownDoubleLayout : Binary64.Layout := ⟨-4, 15, false, 1⟩

def shownBool (b : Bool) : String := if b then "true" else "false"

namespace Plain

mutual

/-- A plain value in a diagnostic. -/
def shown : Plain → String
  | .bool b => "Bool(" ++ shownBool b ++ ")"
  | .int i => "Int(" ++ toString i.toInt ++ ")"
  | .double d => "Float(Float(" ++ Binary64.write shownDoubleLayout d ++ "))"
  | .text s => "Text(" ++ Text.shown s ++ ")"
  | .list items => "List(" ++ Text.shownList (shownItems items) ++ ")"
  | .map entries => "Map(\x7b" ++ ", ".intercalate (shownEntries entries) ++ "\x7d)"

/-- The items of a list. -/
def shownItems : List Plain → List String
  | [] => []
  | item :: rest => shown item :: shownItems rest

/-- The entries of a map. -/
def shownEntries : List (String × Plain) → List String
  | [] => []
  | (key, value) :: rest => (Text.shown key ++ ": " ++ shown value) :: shownEntries rest

end

end Plain

namespace Kind

/-- The names of the fields that are integers. -/
def fieldNames : Kind → List String
  | .plain => []
  | .rectangle => ["x", "y", "w", "h"]
  | .point => ["x", "y"]
  | .size => ["w", "h"]
  | .color => ["r", "g", "b", "a"]
  | .dateTime => ["timestamp"]
  | .time => ["hour", "minute", "second", "millisecond"]
  | .point3D => ["x", "y", "z"]

end Kind

namespace Value

/-- A value in a diagnostic. -/
def shown : Value → String
  | .plain p => "Plain(" ++ p.shown ++ ")"
  | v =>
    let record := Text.shownRecord v.kind.name
      (v.kind.fieldNames.zip (v.fields.map fun i => toString i))
    v.kind.name ++ "(" ++ record ++ ")"

end Value
end Arbor

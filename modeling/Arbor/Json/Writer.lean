/-
# JSON text, written

The text of the values that `core/value` and `properties` in `introspection/proxy` give.

The compact form: no blanks, keys as the object lists them, strings escaped no more than they must
be, doubles with the fewest digits that read back.

| character | escape |
| --- | --- |
| `"`, `\` | `\"`, `\\` |
| backspace, form feed, newline, return, tab | `\b`, `\f`, `\n`, `\r`, `\t` |
| other below `20` | `\u00` and two digits |
-/

import Arbor.Binary64.Shortest
import Arbor.Json.Basic

namespace Arbor
namespace Json

/-- Doubles in JSON: positional from `0.00001` to below `10^16`, and otherwise with a signed
exponent of two digits or more. -/
def doubleLayout : Binary64.Layout := ⟨-5, 15, true, 2⟩

/-- A character of a string. -/
def writeChar (c : Char) : List Char :=
  if c = '"' then ['\\', '"']
  else if c = '\\' then ['\\', '\\']
  else if c = '\x08' then ['\\', 'b']
  else if c = '\x0c' then ['\\', 'f']
  else if c = '\n' then ['\\', 'n']
  else if c = '\r' then ['\\', 'r']
  else if c = '\t' then ['\\', 't']
  else if c < ' ' then "\\u".toList ++ (Text.padZeros 4 (Text.hex c.toNat)).toList
  else [c]

/-- A quoted string. -/
def writeString (s : String) : String :=
  String.ofList ('"' :: s.toList.flatMap writeChar ++ ['"'])

mutual

/-- The compact text of a value. -/
def write : Json → String
  | .null => "null"
  | .bool b => if b then "true" else "false"
  | .int i => toString i
  | .double d => Binary64.write doubleLayout d
  | .str s => writeString s
  | .arr [] => "[]"
  | .arr (item :: rest) => "[" ++ write item ++ writeItems rest ++ "]"
  | .obj [] => "\x7b\x7d"
  | .obj ((key, value) :: rest) =>
    "\x7b" ++ writeString key ++ ":" ++ write value ++ writeEntries rest ++ "\x7d"

/-- Further items, each after a comma. -/
def writeItems : List Json → String
  | [] => ""
  | item :: rest => "," ++ write item ++ writeItems rest

/-- Further entries, each after a comma. -/
def writeEntries : List (String × Json) → String
  | [] => ""
  | (key, value) :: rest => "," ++ writeString key ++ ":" ++ write value ++ writeEntries rest

end

end Json
end Arbor

/-
# Literals

`core/literal`: `isSendable` is `is_wire_representable` and `accepts` is `matches` of `Literal`.

The right-hand side of a predicate `key=literal`: a boolean, an integer of 64 bits, a text, or any
value.  Only booleans, integers of 32 bits and ASCII texts are sent to the remote side; other
literals are compared here.
-/

import Arbor.Value.Order
import Arbor.Value.Tagged

namespace Arbor

/-- What an attribute is compared with. -/
inductive Literal
  | bool (b : Bool)
  | int (i : Int64)
  | text (s : String)
  | value (v : Value)
deriving DecidableEq

/-- A text of ASCII characters only. -/
def isAscii (s : String) : Bool := s.toList.all fun c => c.toNat < 128

namespace Literal

/-- Whether the remote side can compare with the literal. -/
def isSendable : Literal → Bool
  | .bool _ => true
  | .text s => isAscii s
  | .int i => Json.inInt32 i.toInt
  | .value _ => false

/-- Whether a value equals the literal. -/
def accepts : Literal → Value → Bool
  | .bool b, .plain (.bool c) => b == c
  | .int i, .plain (.int j) => i.toInt == j.toInt
  | .text s, .plain (.text t) => s == t
  | .value v, w => decide (v = w)
  | _, _ => false

/-- The JSON form: a boolean, an integer or a string as it is, another value in tagged form. -/
def toJson : Literal → Json
  | .bool b => .bool b
  | .int i => .int i.toInt
  | .text s => .str s
  | .value v => v.toTagged

/-- The literal with a JSON form. -/
def ofJson? : Json → Option Literal
  | .bool b => some (.bool b)
  | .str s => some (.text s)
  | json =>
    match json.int64? with
    | some i => some (.int i)
    | none => (Value.ofTagged? json).map .value

/-- A literal in a diagnostic. -/
def shown : Literal → String
  | .bool b => "Bool(" ++ shownBool b ++ ")"
  | .int i => "Int(" ++ toString i.toInt ++ ")"
  | .text s => "Text(" ++ Text.shown s ++ ")"
  | .value v => "Value(" ++ v.shown ++ ")"

end Literal
end Arbor

/-
# The text of a query

`query/compiler`: `write` is `compile`, `checkSegment` is `validate_segment`, `checkName` is
`validate_type_name`, and `writePredicates` is `compile_predicates`.

```text
query      = "/" | segment+
segment    = ("/" | "//") name predicates?
name       = type name | "*" | ".."
predicates = "[" key "=" literal ("," key "=" literal)* "]"
```

`Query.write` checks the segments from left to right, each before its predicates, and refuses at the
first breach of these rules:

- the tree root stands alone, without separator and predicates;
- a parent is not first, not reached by `//`, and has no predicates;
- a wildcard after `//` has a predicate;
- a type name is ASCII without blanks, control characters and any of `/[],="`;
- every predicate can be evaluated by the remote side.
-/

import Arbor.Query.Fault
import Arbor.Query.Segment

namespace Arbor
namespace Query

/-- A character that has no place in a type name. -/
def isReserved (c : Char) : Bool :=
  c ≤ ' ' || c == '\x7f' || c == '/' || c == '[' || c == ']' || c == ',' || c == '=' || c == '"'

/-- A name that is ASCII and free of reserved characters. -/
def checkName (name : String) : Except Fault Unit :=
  if isAscii name then
    match name.toList.find? isReserved with
    | some c => .error (.reservedChar name c)
    | none => .ok ()
  else .error (.notAscii name)

/-- The rules for the segment with a given index. -/
def checkSegment (index : Nat) (s : Segment) : Except Fault Unit :=
  if s.isTreeRoot then .error (.emptyName index)
  else if s.isParent then
    if index = 0 then .error .leadingParent
    else if s.relative then .error .relativeParent
    else if !s.predicates.isEmpty then .error .parentPredicates
    else .ok ()
  else if s.isWildcard then
    if s.relative && s.predicates.isEmpty then .error .bareWildcard else .ok ()
  else checkName s.name

/-- One predicate of the segment `name`. -/
def writePredicate (name : String) (p : String × Literal) : Except Fault String :=
  if isServerKey p.1 && p.2.isSendable then
    match p.2.write with
    | .ok literal => .ok (p.1 ++ "=" ++ literal)
    | .error _ => .error (.clientPredicate p.1 name)
  else .error (.clientPredicate p.1 name)

/-- The predicates of the segment `name`, apart by commas. -/
def writePredicates (name : String) : List (String × Literal) → Except Fault String
  | [] => .ok ""
  | [p] => writePredicate name p
  | p :: rest => do
    let first ← writePredicate name p
    let others ← writePredicates name rest
    return first ++ "," ++ others

/-- The predicate list of a segment, nothing where there are no predicates. -/
def writeList (s : Segment) : Except Fault String :=
  if s.predicates.isEmpty then .ok ""
  else do return "[" ++ (← writePredicates s.name s.predicates.toList) ++ "]"

/-- A segment. -/
def writeSegment (index : Nat) (s : Segment) : Except Fault String := do
  checkSegment index s
  return (if s.relative then "//" else "/") ++ s.name ++ (← writeList s)

/-- Segments, the first of them with a given index. -/
def writeFrom (index : Nat) : List Segment → Except Fault String
  | [] => .ok ""
  | s :: rest => do
    let first ← writeSegment index s
    let others ← writeFrom (index + 1) rest
    return first ++ others

/-- The text of a query made of segments. -/
def write : List Segment → Except Fault String
  | [] => .error .noSegments
  | first :: rest =>
    if first.isTreeRoot then
      if first.relative || !first.predicates.isEmpty then .error .decoratedRoot
      else if !rest.isEmpty then .error .childOfPseudoRoot
      else .ok "/"
    else writeFrom 0 (first :: rest)

end Query
end Arbor

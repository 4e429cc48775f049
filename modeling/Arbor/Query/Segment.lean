/-
# Segments

`Segment` in `query/segment`; `isServerKey` is `SERVER_KEY_PATTERN` and `isServerSide` is
`is_server_side_predicate` in `query/compiler`; `serverPredicates` and `clientPredicates` are what
`split_predicates` in `query/query` gives.

One step of a query: the name of a type, how it is reached, and predicates on what is found.

| name | selects |
| --- | --- |
| a type name | objects of the type |
| `*` | objects of any type |
| `..` | the parent |
| empty, as the only segment | the root of the tree |

A predicate goes to the remote side if its key can be written in a query and its literal can be
sent; the others are client-side.
-/

import Arbor.Query.Filters

namespace Arbor

/-- One step of a query.  A `relative` one searches anywhere beneath the step before it, the others
among its immediate children. -/
structure Segment where
  name : String
  relative : Bool
  predicates : Filters
deriving DecidableEq

/-- A character of a word of a key. -/
def isKeyChar (c : Char) : Bool := c.isAlphanum || c == '_' || c == '-'

/-- Further words of a key: single characters, each after a blank. -/
def isKeyTail : List Char → Bool
  | [] => true
  | ' ' :: c :: rest => isKeyChar c && isKeyTail rest
  | _ => false

/-- The rest of the first word of a key, and further words. -/
def isKeyRest : List Char → Bool
  | [] => true
  | c :: rest => if isKeyChar c then isKeyRest rest else isKeyTail (c :: rest)

/-- A key that can be written in a query: a word of letters, digits, `_` and `-`, then any number of
such characters, each after a blank. -/
def isServerKey (key : String) : Bool :=
  match key.toList with
  | [] => false
  | c :: rest => isKeyChar c && isKeyRest rest

/-- A predicate that the remote side can evaluate. -/
def isServerSide (key : String) (value : Literal) : Bool := isServerKey key && value.isSendable

namespace Segment

/-- An immediate child. -/
def child (name : String) (predicates : Filters) : Segment := ⟨name, false, predicates⟩

/-- An object anywhere beneath. -/
def descendant (name : String) (predicates : Filters) : Segment := ⟨name, true, predicates⟩

def wildcard : String := "*"

def parentName : String := ".."

/-- The root of the tree, whatever its name. -/
def treeRoot : Segment := child "" .empty

/-- The parent. -/
def parent : Segment := child parentName .empty

def isWildcard (s : Segment) : Bool := s.name == wildcard

def isParent (s : Segment) : Bool := s.name == parentName

def isTreeRoot (s : Segment) : Bool := s.name == ""

/-- The predicates for the remote side. -/
def serverPredicates (s : Segment) : Filters := s.predicates.filter isServerSide

/-- The predicates that are evaluated here. -/
def clientPredicates (s : Segment) : Filters :=
  s.predicates.filter fun key value => !isServerSide key value

/-- The segment as the remote side sees it. -/
def sent (s : Segment) : Segment := { s with predicates := s.serverPredicates }

/-- The JSON form. -/
def toJson (s : Segment) : Json :=
  Json.object [("name", .str s.name), ("relative", .bool s.relative),
    ("predicates", s.predicates.toJson)]

end Segment
end Arbor

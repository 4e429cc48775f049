/-
# What is wrong with a query

The reasons for `invalid_query` in `query/compiler`, `query/parser` and `query/query`.

The breaches of the query grammar, found while a query is put together or its text is read.
-/

import Arbor.Literal.Text
import Arbor.Text.Shown

namespace Arbor
namespace Query

/-- A breach of the query grammar. -/
inductive Fault
  | noSegments
  | decoratedRoot
  | childOfPseudoRoot
  | emptyName (index : Nat)
  | leadingParent
  | relativeParent
  | parentPredicates
  | bareWildcard
  | notAscii (name : String)
  | reservedChar (name : String) (c : Char)
  | clientPredicate (key name : String)
  | clientInside (name : String)
  | badPath (path : String)
  | clientParent
  | noSlash (text : String)
  | noSeparator (rest text : String)
  | noEquals (text : String)
  | emptyKey (text : String)
  | unterminated (text : String)
  | badLiteral (key : String) (fault : Literal.ReadFault)
  | duplicateKey (key text : String)

/-- The wording of a fault. -/
def Fault.message : Fault → String
  | .noSegments => "a query needs at least one segment"
  | .decoratedRoot => "the tree root segment takes no separator or predicates"
  | .childOfPseudoRoot => "cannot select children from a pseudo-tree-root query"
  | .emptyName index =>
    s!"segment {index} has an empty name; only the first segment may denote the root"
  | .leadingParent => "a query cannot start by selecting a parent"
  | .relativeParent => "a parent may only be selected with the child separator '/'"
  | .parentPredicates => "cannot specify predicates while selecting a parent"
  | .bareWildcard => "a wildcard after '//' must carry at least one server-side predicate"
  | .notAscii name => s!"type name '{name}' must be ASCII encodable"
  | .reservedChar name c =>
    s!"type name '{name}' contains reserved character {Text.shownQuoted c}"
  | .clientPredicate key name =>
    s!"predicate '{key}' on '{name}' has no wire representation; " ++
      "it must be filtered on the client"
  | .clientInside name =>
    s!"only the last segment may need client-side filtering, but '{name}' does"
  | .badPath path => s!"invalid path '{path}'"
  | .clientParent =>
    "cannot create a new query from a parent that requires client-side filtering"
  | .noSlash text => s!"query '{text}' must start with '/'"
  | .noSeparator rest text => s!"expected a separator at '{rest}' in '{text}'"
  | .noEquals text => s!"predicate without '=' in '{text}'"
  | .emptyKey text => s!"empty predicate key in '{text}'"
  | .unterminated text => s!"unterminated predicate list in '{text}'"
  | .badLiteral key fault =>
    s!"bad literal for '{key}': cannot decode value: {fault.message}"
  | .duplicateKey key text => s!"duplicate predicate key '{key}' in '{text}'"

end Query
end Arbor

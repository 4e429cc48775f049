/-
# Queries

`Query` in `query/query`: `ofSegments` is `from_segments`, `everywhere` is `whole_tree_search`,
`ofPath` is `from_path_and_id`, `target` is `target_name`; the steps are `select_child`,
`select_descendant` and `select_parent`, each through `extend`.

A query is a list of segments together with the text that is sent to the remote side.  The text has
the predicates that the remote side can evaluate; what is left of the last segment's predicates is
filtered here, and other segments may leave nothing.  Every way of building a query checks it, so a
query always has a text.
-/

import Arbor.Path
import Arbor.Query.Text

namespace Arbor

/-- A query. -/
structure Query where
  segments : List Segment
  /-- What is sent. -/
  text : String
  /-- What is filtered here. -/
  clientFilters : Filters
deriving DecidableEq

namespace Query

/-- The query made of segments. -/
def ofSegments (segments : List Segment) : Except Fault Query :=
  match segments.getLast? with
  | none => .error .noSegments
  | some last =>
    match segments.dropLast.find? fun s => !s.clientPredicates.isEmpty with
    | some s => .error (.clientInside s.name)
    | none => do
      return ⟨segments, ← write (segments.dropLast ++ [last.sent]), last.clientPredicates⟩

/-- The root object by its type. -/
def root (name : String) : Except Fault Query := ofSegments [.child name .empty]

/-- The root object of whatever type.  Nothing can be selected beneath this query. -/
def pseudoRoot : Query := ⟨[.treeRoot], "/", .empty⟩

/-- All objects of a type in the whole tree. -/
def everywhere (name : String) (filters : Filters) : Except Fault Query :=
  ofSegments [.descendant name filters]

/-- A child segment for every component of a path, and a predicate on the last one. -/
def addressSegments (id : Int64) : List String → List Segment
  | [] => []
  | [name] => [.child name (Filters.empty.insert "id" (.int id))]
  | name :: rest => .child name .empty :: addressSegments id rest

/-- The query for the object with a path and an id. -/
def ofPath (path : String) (id : Int64) : Except Fault Query :=
  if path.toList.head? = some '/' ∧ !(Path.components path).isEmpty then
    ofSegments (addressSegments id (Path.components path))
  else .error (.badPath path)

/-- The query with one more segment. -/
def extend (q : Query) (s : Segment) : Except Fault Query :=
  if q.clientFilters.isEmpty then ofSegments (q.segments ++ [s]) else .error .clientParent

/-- Children of what the query selects. -/
def child (q : Query) (name : String) (filters : Filters) : Except Fault Query :=
  q.extend (.child name filters)

/-- Objects anywhere beneath what the query selects. -/
def descendant (q : Query) (name : String) (filters : Filters) : Except Fault Query :=
  q.extend (.descendant name filters)

/-- The parent of what the query selects. -/
def parent (q : Query) : Except Fault Query := q.extend .parent

/-- Whether something is filtered here. -/
def isClientSide (q : Query) : Bool := !q.clientFilters.isEmpty

/-- The name in the last segment. -/
def target (q : Query) : String :=
  match q.segments.getLast? with
  | some s => s.name
  | none => ""

/-- The query in messages: its text, and the keys that are filtered here. -/
def display (q : Query) : String :=
  if q.isClientSide then
    q.text ++ " (client-side: " ++ ", ".intercalate q.clientFilters.keys ++ ")"
  else q.text

/-- The JSON form. -/
def toJson (q : Query) : Json :=
  Json.object [("segments", .arr (q.segments.map Segment.toJson)), ("server_query", .str q.text),
    ("client_filters", q.clientFilters.toJson)]

end Query
end Arbor

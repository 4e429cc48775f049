/-
# Proxies

`ProxyObject` in `introspection/proxy`: `parent` is `get_parent`, `parentOfType` is
`get_parent_of_type`, `allInstances` is `get_all_instances`; other names are the same.

What can be done with an object that was found.  Every selection starts from the query that
addresses the object; the text of the query is checked before anything is sent.
-/

import Arbor.Session.Basic

namespace Arbor
namespace Proxy

variable {σ : Type}

def id (p : Proxy) : Int64 := p.node.id

def path (p : Proxy) : String := p.node.path

def typeName (p : Proxy) : String := p.node.typeName

def attribute? (p : Proxy) (name : String) : Option Value := p.node.attribute? name

/-- One more attribute among properties, in tagged form. -/
def addProperty (properties : List (String × Json)) (a : String × Value) :
    Except Failure (List (String × Json)) :=
  match a.2.draft.toJson with
  | .ok json => .ok (Keyed.insert a.1 json properties)
  | .error message => .error (.valueDecode (some a.1) message)

/-- Everything that is known about the object: its id as a number, and every attribute, up to the
first that cannot be made JSON. -/
def properties (p : Proxy) : Except Failure (List (String × Json)) :=
  p.node.attributes.foldlM addProperty (Keyed.insert "id" (.int p.id.toInt) [])

/-- Whether the object is bound to a class. -/
def isA (p : Proxy) (className : String) : Bool := p.className.name? == some className

/-- A proxy in a diagnostic. -/
def shown (p : Proxy) : String :=
  Text.shownRecord "ProxyObject" [("path", Text.shown p.path), ("id", toString p.id.toInt),
    ("class", p.className.shown)]

/-! ## Selection -/

/-- Goes on with a query, if it is one. -/
def withQuery {α : Type} (q : Except Query.Fault Query) (f : Query → Exchange σ α) :
    Exchange σ α := do
  f (← Action.ofExcept (Session.queryOf q))

/-- The object of a type anywhere beneath. -/
def selectSingle (s : Session σ) (p : Proxy) (name : String) (filters : Filters) :
    Exchange σ Proxy :=
  withQuery (p.query.descendant name filters) s.selectSingle

/-- The objects of a type anywhere beneath. -/
def selectMany (s : Session σ) (p : Proxy) (name : String) (filters : Filters) :
    Exchange σ (List Proxy) :=
  withQuery (p.query.descendant name filters) s.selectMany

def waitSelectSingle (s : Session σ) (p : Proxy) (name : String) (filters : Filters)
    (timeout : Duration) : Exchange σ Proxy :=
  withQuery (p.query.descendant name filters) fun q => s.waitSelectSingle q timeout

def waitSelectMany (s : Session σ) (p : Proxy) (name : String) (filters : Filters) (least : Nat)
    (timeout : Duration) : Exchange σ (List Proxy) :=
  withQuery (p.query.descendant name filters) fun q => s.waitSelectMany q least timeout

/-! ## Navigation -/

/-- The immediate children of a type. -/
def childrenOfType (s : Session σ) (p : Proxy) (name : String) (filters : Filters) :
    Exchange σ (List Proxy) :=
  withQuery (p.query.child name filters) s.selectMany

/-- The immediate children. -/
def children (s : Session σ) (p : Proxy) : Exchange σ (List Proxy) :=
  p.childrenOfType s Segment.wildcard .empty

/-- The parent.  The remote side says what the parent of the root is. -/
def parent (s : Session σ) (p : Proxy) : Exchange σ Proxy :=
  withQuery p.query.parent s.selectSingle

/-- How many steps upward the nearest ancestor of a type is, given the types on the way up. -/
def stepsUp? (name : String) : List String → Option Nat
  | [] => none
  | c :: above => if c = name then some 1 else (stepsUp? name above).map (· + 1)

/-- The query for the ancestor so many steps upward. -/
def ancestorQuery (q : Query) : Nat → Except Query.Fault Query
  | 0 => .ok q
  | n + 1 => do ancestorQuery (← q.parent) n

/-- The nearest ancestor of a type. -/
def parentOfType (s : Session σ) (p : Proxy) (name : String) : Exchange σ Proxy :=
  match stepsUp? name (Path.components p.path).dropLast.reverse with
  | some n => withQuery (ancestorQuery p.query n) s.selectSingle
  | none => Action.fail (.notFound s!"ancestor '{name}' of {p.path}" .noMatch)

/-- All objects of the same type in the tree. -/
def allInstances (s : Session σ) (p : Proxy) : Exchange σ (List Proxy) :=
  withQuery (Query.everywhere p.typeName .empty) s.selectMany

/-! ## Snapshots -/

/-- The object as it is now. -/
def refresh (s : Session σ) (p : Proxy) : Exchange σ Proxy := s.selectSingle p.query

/-- One look whether an attribute equals a literal. -/
def tryAttribute (s : Session σ) (p : Proxy) (name : String) (expected : Literal) :
    Exchange σ (Progress Unit Proxy) := do
  let fresh ← p.refresh s
  return if fresh.node.satisfies name expected then .done fresh else .pending ()

/-- Waits until an attribute equals a literal. -/
def waitFor (s : Session σ) (p : Proxy) (name : String) (expected : Literal)
    (timeout : Duration) : Exchange σ Proxy := do
  match ← s.poll timeout (p.tryAttribute s name expected) with
  | .done fresh => return fresh
  | .pending () =>
    Action.fail (.waitTimeout (s!"{name} of {p.path} to equal " ++ expected.shown) timeout)

/-- One look whether the object is gone. -/
def tryGone (s : Session σ) (p : Proxy) : Exchange σ (Progress Unit Unit) := do
  let nodes ← s.execute p.query
  return if nodes.isEmpty then .done () else .pending ()

/-- Waits until the object is gone. -/
def waitUntilDestroyed (s : Session σ) (p : Proxy) (timeout : Duration) : Exchange σ Unit := do
  match ← s.poll timeout (p.tryGone s) with
  | .done () => return ()
  | .pending () =>
    Action.fail (.waitTimeout (p.path ++ s!" (id {p.id.toInt}) to be destroyed") timeout)

end Proxy
end Arbor

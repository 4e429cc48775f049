/-
# Classes of proxies

`introspection/registry`: `Registration` with `applies_to`, `ProxyClass`, and `ProxyRegistry` with
`register`, `get` and `resolve`.

A registration names a class and the type of object it is for.  It applies to the nodes of that type
or, if it carries a matcher, to those that the matcher picks, whatever their type.  A registry keeps
registrations in order, each class name once; a node to which several apply belongs to none.
-/

import Arbor.Node
import Arbor.Text.Shown

namespace Arbor

/-- A test on a path and attributes. -/
def Matcher : Type := String → Attributes → Bool

namespace Matcher

/-- The path begins with a text. -/
def pathBegins (beginning : String) : Matcher := fun path _ =>
  beginning.toList.isPrefixOf path.toList

/-- The attribute is there. -/
def has (name : String) : Matcher := fun _ attributes => (Keyed.find? name attributes).isSome

/-- The attribute has a value. -/
def equals (name : String) (value : Value) : Matcher := fun _ attributes =>
  decide (Keyed.find? name attributes = some value)

/-- All tests are passed. -/
def all (tests : List Matcher) : Matcher := fun path attributes =>
  tests.all fun test => test path attributes

end Matcher

/-- A class of proxies. -/
structure Registration where
  className : String
  typeName : String
  matcher : Option Matcher

/-- What a node is bound to. -/
inductive ProxyClass
  | generic
  | custom (name : String)
deriving DecidableEq

/-- The name of a class that is not generic. -/
def ProxyClass.name? : ProxyClass → Option String
  | .generic => none
  | .custom name => some name

/-- A class in a diagnostic. -/
def ProxyClass.shown : ProxyClass → String
  | .generic => "Generic"
  | .custom name => "Custom(" ++ Text.shown name ++ ")"

namespace Registration

/-- Whether the registration claims a node. -/
def applies (r : Registration) (n : Node) : Bool :=
  match r.matcher with
  | some test => test n.path n.attributes
  | none => n.typeName == r.typeName

/-- What is reported when a class has been registered. -/
def event (r : Registration) : Event :=
  ⟨.debug, "Registered proxy class", [("class", r.className), ("type_name", r.typeName)]⟩

/-- A registration in a diagnostic. -/
def shown (r : Registration) : String :=
  Text.shownRecord "Registration" [("class_name", Text.shown r.className),
    ("type_name", Text.shown r.typeName), ("has_matcher", shownBool r.matcher.isSome)]

end Registration

/-- Registrations in order. -/
structure Registry where
  toList : List Registration

namespace Registry

/-- No registrations. -/
def empty : Registry := ⟨[]⟩

/-- The registration of a class. -/
def get? (registry : Registry) (className : String) : Option Registration :=
  registry.toList.find? fun r => r.className == className

def size (registry : Registry) : Nat := registry.toList.length

/-- Adds a registration, unless its class name is taken. -/
def register (registry : Registry) (r : Registration) : Except Failure Registry :=
  match registry.get? r.className with
  | some _ => .error (.duplicateClass r.className)
  | none => .ok ⟨registry.toList ++ [r]⟩

/-- The class of a node: generic if nothing applies, the only candidate if there is one. -/
def resolve (registry : Registry) (n : Node) : Except Failure ProxyClass :=
  match registry.toList.filter fun r => r.applies n with
  | [] => .ok .generic
  | [r] => .ok (.custom r.className)
  | candidates => .error (.ambiguousClass n.path (candidates.map Registration.className))

/-- A registry in a diagnostic. -/
def shown (registry : Registry) : String :=
  Text.shownRecord "ProxyRegistry"
    [("registrations", Text.shownList (registry.toList.map Registration.shown))]

end Registry
end Arbor

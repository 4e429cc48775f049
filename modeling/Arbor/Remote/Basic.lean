/-
# The remote side

`IntrospectionTransport` in `core/traits`, with `get_version` and `get_state`.

A remote side answers two calls: one for the version of the protocol it speaks, one for the objects
that a query selects.  A link is what lasts between calls: the state of the remote side, its version
once that is known, and a record of all calls and events.
-/

import Arbor.Action
import Arbor.Event
import Arbor.Failure
import Arbor.Node

namespace Arbor

/-- A remote side with states of type `σ`.  A call fails with a cause in words. -/
structure Remote (σ : Type) where
  version : Action String σ String
  state : (query : String) → Action String σ (List Entry)

/-- A call that was made, with its answer. -/
inductive Call
  | version (answer : Except String String)
  | state (time : Nat) (query : String) (answer : Except String (List Entry))

/-- The query of a call for objects. -/
def Call.query? : Call → Option String
  | .version _ => none
  | .state _ query _ => some query

/-- A call for the version. -/
def Call.isVersion : Call → Bool
  | .version _ => true
  | .state .. => false

/-- A call for the version that was answered. -/
def Call.isServedVersion : Call → Bool
  | .version (.ok _) => true
  | _ => false

/-- A connection to a remote side. -/
structure Link (σ : Type) where
  remote : σ
  /-- The version of the remote side, once a call for it was answered. -/
  version : Option String
  /-- The calls, the latest first. -/
  calls : List Call
  /-- The events, the latest first. -/
  events : List Event

namespace Link

variable {σ α : Type}

/-- A connection over which nothing has gone. -/
def start (remote : σ) : Link σ := ⟨remote, none, [], []⟩

/-- Adds an event. -/
def report (l : Link σ) (e : Event) : Link σ := { l with events := e :: l.events }

end Link

/-- What is done over a connection. -/
abbrev Exchange (σ α : Type) : Type := Action Failure (Link σ) α

/-- Reports an event. -/
def report {σ : Type} (e : Event) : Exchange σ Unit := Action.modify fun l => l.report e

namespace Remote

variable {σ : Type}

/-- The failure of a call. -/
def outcome {α : Type} : Except String α → Except Failure α
  | .ok a => .ok a
  | .error cause => .error (.transport cause)

/-- Calls for the version. -/
def callVersion (r : Remote σ) : Exchange σ String := fun now l =>
  let e := r.version now l.remote
  ⟨outcome e.result, e.elapsed,
    { l with remote := e.state, calls := .version e.result :: l.calls }⟩

/-- Calls for the objects that a query selects. -/
def callState (r : Remote σ) (query : String) : Exchange σ (List Entry) := fun now l =>
  let e := r.state query now l.remote
  ⟨outcome e.result, e.elapsed,
    { l with remote := e.state, calls := .state now query e.result :: l.calls }⟩

end Remote
end Arbor

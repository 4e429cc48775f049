/-
# Scripted remote sides

Remote sides in the manner of `FakeTransport` in `introspection/testing`.

A remote side that answers from a script, for trying out queries without a live tree.  Each call for
objects takes the latency of the script, and then the first rule that fits decides; where none does
there are no objects.  The script is its own state: failures of the version call are used up one by
one, and a rule counts how often it may still be used.
-/

import Arbor.Remote.Basic

namespace Arbor
namespace Remote

/-- An answer, and when it is given. -/
structure Rule where
  /-- The only query that the rule is for. -/
  query : Option String
  /-- The first instant at which the rule is in force. -/
  since : Nat
  /-- The instant from which on it no longer is. -/
  before : Option Nat
  /-- How many times it can be used. -/
  times : Option Nat
  answer : Except String (List Entry)

/-- What a remote side does. -/
structure Script where
  version : String
  /-- With what the first calls for the version fail, one each. -/
  versionFailures : List String
  /-- Nanoseconds that a call for objects takes. -/
  latency : Nat
  rules : List Rule

namespace Rule

/-- An answer to every query, always. -/
def always (nodes : List Entry) : Rule := ⟨none, 0, none, none, .ok nodes⟩

/-- An answer to one query, always. -/
def only (query : String) (nodes : List Entry) : Rule := ⟨some query, 0, none, none, .ok nodes⟩

/-- Whether the rule decides about a query at an instant. -/
def fits (r : Rule) (query : String) (now : Nat) : Bool :=
  r.query.all (· == query) && r.since ≤ now && r.before.all (now < ·) && r.times.all (0 < ·)

/-- The rule after it has been used. -/
def used (r : Rule) : Rule := { r with times := r.times.map (· - 1) }

/-- The answer of the first rule that fits, and the rules after that. -/
def choose (query : String) (now : Nat) : List Rule → Except String (List Entry) × List Rule
  | [] => (.ok [], [])
  | r :: rest =>
    if r.fits query now then (r.answer, r.used :: rest)
    else
      let c := choose query now rest
      (c.1, r :: c.2)

end Rule

namespace Script

/-- The answer to a call for the version. -/
def answerVersion : Action String Script String := fun _ s =>
  match s.versionFailures with
  | [] => ⟨.ok s.version, 0, s⟩
  | cause :: rest => ⟨.error cause, 0, { s with versionFailures := rest }⟩

/-- The answer to a call for objects. -/
def answerState (query : String) : Action String Script (List Entry) := fun now s =>
  let c := Rule.choose query (now + s.latency) s.rules
  ⟨c.1, s.latency, { s with rules := c.2 }⟩

/-- The remote side that follows a script. -/
def remote : Remote Script := ⟨answerVersion, answerState⟩

end Script
end Remote
end Arbor

/-
# Sessions

`Session` in `introspection/session`: `bindAll` and `one?` are what `select_many` and
`select_single` make of nodes, `waitSelectSingle` and `waitSelectMany` are `wait_select_single` and
`wait_select_many`.

A session is a remote side, the classes that its objects are bound to, and options.  Selecting binds
every node that a query finds to a proxy: the node, its class, and the query that addresses the same
object again by path and id.

`Session.one?` and `Session.bindAll` say what a selection makes of the nodes, apart from the calls
that it takes to get them.
-/

import Arbor.Poller
import Arbor.Proxy.Registry
import Arbor.Session.Exchange

namespace Arbor

/-- A snapshot of an object with its class and its address. -/
structure Proxy where
  node : Node
  className : ProxyClass
  query : Query

/-- A remote side, the classes of its objects, and how to deal with it. -/
structure Session (σ : Type) where
  remote : Remote σ
  registry : Registry
  options : Options

namespace Session

variable {σ α β : Type}

/-- A breach of the query grammar as a failure. -/
def queryOf : Except Query.Fault α → Except Failure α
  | .ok a => .ok a
  | .error fault => .error (.invalidQuery fault.message)

/-- What is reported when a session begins. -/
def event (s : Session σ) : Event :=
  ⟨.info, "Introspection session created", [("expected_version", s.options.expectedVersion),
    ("proxy_classes", toString s.registry.size)]⟩

/-- The proxy for a node. -/
def bind (registry : Registry) (n : Node) : Except Failure Proxy := do
  let className ← registry.resolve n
  let query ← queryOf (Query.ofPath n.path n.id)
  return ⟨n, className, query⟩

/-- The proxies for nodes, up to the first that has none. -/
def bindAll (registry : Registry) : List Node → Except Failure (List Proxy)
  | [] => .ok []
  | n :: rest => do
    let p ← bind registry n
    return p :: (← bindAll registry rest)

/-- The proxy for the only node. -/
def one? (registry : Registry) (q : Query) : List Node → Except Failure Proxy
  | [] => .error (.notFound q.display .noMatch)
  | [n] => bind registry n
  | nodes => .error (.notFound q.display (.ambiguous nodes.length))

/-- The nodes that a query selects, without proxies. -/
def execute (s : Session σ) (q : Query) : Exchange σ (List Node) := do
  match ← (Exchange.execute s.remote s.options q).caught with
  | .ok nodes => return nodes
  | .error failure =>
    report ⟨.debug, "Query failed", [("query", q.display), ("error", failure.message)]⟩
    Action.fail failure

/-- All objects that a query selects. -/
def selectMany (s : Session σ) (q : Query) : Exchange σ (List Proxy) := do
  Action.ofExcept (bindAll s.registry (← s.execute q))

/-- The one object that a query selects. -/
def selectSingle (s : Session σ) (q : Query) : Exchange σ Proxy := do
  Action.ofExcept (one? s.registry q (← s.execute q))

/-- The root of the tree. -/
def root (s : Session σ) : Exchange σ Proxy := s.selectSingle .pseudoRoot

/-- Attempts at the pace of the session, for at most `timeout`. -/
def poll (s : Session σ) (timeout : Duration) (attempt : Exchange σ (Progress β α)) :
    Exchange σ (Progress β α) :=
  (Poller.mk s.options.pollInterval timeout).run attempt

/-- One attempt to select one object; that there is none yet is no failure. -/
def trySingle (s : Session σ) (q : Query) : Exchange σ (Progress Unit Proxy) := do
  match ← (s.selectSingle q).caught with
  | .ok p => return .done p
  | .error failure => if failure.isNoMatch then return .pending () else Action.fail failure

/-- Waits until a query selects one object. -/
def waitSelectSingle (s : Session σ) (q : Query) (timeout : Duration) : Exchange σ Proxy := do
  match ← s.poll timeout (s.trySingle q) with
  | .done p => return p
  | .pending () => Action.fail (.notFound q.display (.timedOut timeout))

/-- One attempt to select several objects; how many there are if they are too few. -/
def tryMany (s : Session σ) (q : Query) (least : Nat) :
    Exchange σ (Progress Nat (List Proxy)) := do
  let proxies ← s.selectMany q
  return if least ≤ proxies.length then .done proxies else .pending proxies.length

/-- Waits until a query selects enough objects. -/
def waitSelectMany (s : Session σ) (q : Query) (least : Nat) (timeout : Duration) :
    Exchange σ (List Proxy) := do
  match ← s.poll timeout (s.tryMany q least) with
  | .done proxies => return proxies
  | .pending found => Action.fail (.notFound q.display (.tooFew least found))

end Session
end Arbor

/-
# Queries over a connection

`Backend` in `introspection/backend`: `handshake` is `ensure_compatible`, `fetch` is `fetch_raw`,
and `execute` is `execute`.

| step | does |
| --- | --- |
| `handshake` | learns the version of the remote side, once, and refuses any but the expected one |
| `fetch` | after a handshake, asks for the objects that a query selects |
| `execute` | fetches, decodes the entries, and keeps the nodes that pass what is filtered here |

Nodes keep the order of the reply.  An entry that does not decode fails the query or, if the options
say so, is left out with a warning.
-/

import Arbor.Query.Basic
import Arbor.Remote.Basic
import Arbor.Session.Options

namespace Arbor
namespace Exchange

variable {σ : Type}

/-- The version of the remote side.  It is asked for until there is an answer, and then kept. -/
def learnVersion (r : Remote σ) (o : Options) : Exchange σ String := do
  match (← Action.get).version with
  | some version => return version
  | none =>
    let version ← r.callVersion
    report ⟨.info, "Introspection protocol handshake",
      [("remote", version), ("expected", o.expectedVersion)]⟩
    Action.modify fun l => { l with version := some version }
    return version

/-- Makes sure that the remote side speaks the expected version. -/
def handshake (r : Remote σ) (o : Options) : Exchange σ Unit := do
  let version ← learnVersion r o
  if version = o.expectedVersion then return ()
  else Action.fail (.versionMismatch o.expectedVersion version)

/-- The reply to a query, not decoded. -/
def fetch (r : Remote σ) (o : Options) (q : Query) : Exchange σ (List Entry) := do
  handshake r o
  let reply ← r.callState q.text
  let results := toString reply.length
  report ⟨.debug, "GetState", [("query", q.display), ("results", results)]⟩
  if o.largeResultWarning < reply.length then
    report ⟨.warn, "Your query returned a lot of data; consider narrowing it",
      [("query", q.display), ("results", results)]⟩
  return reply

/-- The nodes that entries stand for. -/
def decodeAll (o : Options) : List Entry → Exchange σ (List Node)
  | [] => return []
  | e :: rest =>
    match Node.decode e with
    | .ok n => do
      n.events.forM report
      return n :: (← decodeAll o rest)
    | .error failure =>
      if o.skipMalformedNodes then do
        report ⟨.warn, "Skipping malformed node", [("path", e.path), ("error", failure.message)]⟩
        decodeAll o rest
      else Action.fail failure

/-- Whether a node satisfies all predicates. -/
def passes (filters : Filters) (n : Node) : Bool :=
  filters.toList.all fun p => n.satisfies p.1 p.2

/-- The nodes that pass what is filtered here. -/
def sift (q : Query) (nodes : List Node) : Exchange σ (List Node) := do
  if q.clientFilters.isEmpty then return nodes
  else
    let kept := nodes.filter (passes q.clientFilters)
    report ⟨.debug, "Applied client-side filters", [("query", q.display),
      ("before", toString nodes.length), ("after", toString kept.length)]⟩
    return kept

/-- The nodes that a query selects. -/
def execute (r : Remote σ) (o : Options) (q : Query) : Exchange σ (List Node) := do
  sift q (← decodeAll o (← fetch r o q))

end Exchange
end Arbor

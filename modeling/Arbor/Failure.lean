/-
# Failures

`core/error`: `ProbeError` with `for_attribute`, `is_no_match` and `is_ambiguous`, and
`NotFoundReason`.

Everything that can go wrong between asking for objects and having them.  `Failure.message` words a
failure; `Failure.isNoMatch` and `Failure.isAmbiguous` are what callers branch on.
-/

import Arbor.Duration

namespace Arbor

/-- Why a selection has no result. -/
inductive NotFoundReason
  | noMatch
  | ambiguous (count : Nat)
  | timedOut (timeout : Duration)
  | tooFew (wanted found : Nat)
deriving DecidableEq

/-- What went wrong. -/
inductive Failure
  /-- A breach of the query grammar, found before anything is sent. -/
  | invalidQuery (reason : String)
  /-- The remote side speaks another version of the protocol. -/
  | versionMismatch (expected actual : String)
  /-- The transport failed. -/
  | transport (cause : String)
  /-- A value does not decode; the attribute is named where there is one. -/
  | valueDecode (name : Option String) (message : String)
  /-- An entry of a reply has no usable id. -/
  | malformedNode (path reason : String)
  /-- A selection or a wait for one found nothing, or not what it wanted. -/
  | notFound (query : String) (reason : NotFoundReason)
  /-- Several classes claim a node. -/
  | ambiguousClass (path : String) (candidates : List String)
  /-- A class name is taken. -/
  | duplicateClass (name : String)
  /-- A condition did not come about in time. -/
  | waitTimeout (what : String) (timeout : Duration)
  /-- The clock ends before the next attempt of a wait that has no deadline. -/
  | clockEnded
deriving DecidableEq

/-- The wording of a reason. -/
def NotFoundReason.message : NotFoundReason → String
  | .noMatch => "no object matched"
  | .ambiguous count => s!"{count} objects matched where exactly one was required"
  | .timedOut timeout => s!"no object matched within {timeout.text}s"
  | .tooFew wanted found => s!"found {found} objects, wanted at least {wanted}"

namespace Failure

/-- The wording of a failure. -/
def message : Failure → String
  | .invalidQuery reason => s!"invalid query: {reason}"
  | .versionMismatch expected actual =>
    s!"wire protocol mismatch: remote is {actual}, expecting {expected}"
  | .transport cause => s!"transport error: {cause}"
  | .valueDecode none message => s!"cannot decode value: {message}"
  | .valueDecode (some name) message => s!"cannot decode value for attribute '{name}': {message}"
  | .malformedNode path reason => s!"malformed node at '{path}': {reason}"
  | .notFound query reason => s!"state not found for query {query}: {reason.message}"
  | .ambiguousClass path candidates =>
    s!"ambiguous proxy for '{path}': matched " ++ ", ".intercalate candidates
  | .duplicateClass name => s!"proxy class '{name}' is already registered"
  | .waitTimeout what timeout => s!"timed out after {timeout.text}s waiting for {what}"
  | .clockEnded => "the clock ended during a wait without a deadline"

/-- Names the attribute of a value that does not decode; other failures have none. -/
def forAttribute (name : String) : Failure → Failure
  | .valueDecode _ message => .valueDecode (some name) message
  | failure => failure

/-- A selection found nothing. -/
def isNoMatch : Failure → Bool
  | .notFound _ .noMatch => true
  | _ => false

/-- A selection found several objects where one was wanted. -/
def isAmbiguous : Failure → Bool
  | .notFound _ (.ambiguous _) => true
  | _ => false

/-- What lies beneath a failure: the cause of a failed transport. -/
def source? : Failure → Option String
  | .transport cause => some cause
  | _ => none

end Failure
end Arbor

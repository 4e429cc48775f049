/-
# Options of a session

`SessionOptions` in `introspection/session` and `BackendOptions` in `introspection/backend`.

What a session expects of the remote side, and how it waits.
-/

import Arbor.Duration
import Arbor.Text.Shown
import Arbor.Value.Shown

namespace Arbor

/-- How a session works. -/
structure Options where
  /-- The version of the protocol that the remote side must speak. -/
  expectedVersion : String
  /-- A reply with more objects than this draws a warning. -/
  largeResultWarning : Nat
  /-- Leave out entries that do not decode instead of failing. -/
  skipMalformedNodes : Bool
  /-- The pause between the attempts of a wait. -/
  pollInterval : Duration
  /-- How long a wait lasts that does not say how long. -/
  defaultTimeout : Duration
deriving DecidableEq

namespace Options

/-- Version 1.4, warnings above 15 objects, no entry left out, and waits of 10 seconds with an
attempt every 250 milliseconds. -/
def default : Options := ⟨"1.4", 15, false, .ofMillis 250, .ofMillis 10000⟩

/-- What concerns the remote side, in a diagnostic. -/
def shown (o : Options) : String :=
  Text.shownRecord "BackendOptions" [("expected_version", Text.shown o.expectedVersion),
    ("large_result_warning", toString o.largeResultWarning),
    ("skip_malformed_nodes", shownBool o.skipMalformedNodes)]

end Options
end Arbor

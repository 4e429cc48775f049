/-
# Durations

The durations of `introspection/polling` and `introspection/session`, and how the messages of
`core/error` (`ProbeError`, `NotFoundReason`) give them.

A span of time in nanoseconds.  In messages a duration is given in seconds to one decimal place: the
seconds and the fraction are added as doubles, and the exact value of that double is rounded, a half
to the even digit, so 250 ms read `0.2` and 750 ms read `0.8`.
-/

import Arbor.Binary64.Shortest

namespace Arbor

/-- A span of time in nanoseconds. -/
structure Duration where
  nanos : Nat
deriving DecidableEq

namespace Duration

def ofMillis (ms : Nat) : Duration := ⟨ms * 1000000⟩

def ofSeconds (seconds nanos : Nat) : Duration := ⟨seconds * 1000000000 + nanos⟩

/-- The longest duration: as many seconds as 64 bits count, and just not one more. -/
def longest : Duration := ofSeconds 0xFFFFFFFFFFFFFFFF 999999999

/-- Whole seconds. -/
def seconds (d : Duration) : Nat := d.nanos / 1000000000

/-- Whole milliseconds. -/
def millis (d : Duration) : Nat := d.nanos / 1000000

/-- The seconds to one decimal place. -/
def text (d : Duration) : String :=
  let whole := Binary64.ofRatio false d.seconds 1
  let fraction := Binary64.ofRatio false (d.nanos % 1000000000) 1000000000
  (whole.addNonneg fraction).tenths

end Duration
end Arbor

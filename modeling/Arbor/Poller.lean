/-
# Waiting

`Poller` in `introspection/polling`, with its `run`.

A poller makes attempts until one has a result, one fails, or time is up.  Between the end of an
attempt and the start of the next lies the interval, at least a millisecond; the last attempt starts
at the deadline itself.  A deadline beyond the end of the clock is none, and then nothing but the
end of the clock stops the attempts.

Every pause takes some time, so the time left before the deadline (or the end of the clock) falls
from attempt to attempt, and the waiting ends.
-/

import Arbor.Action
import Arbor.Failure

namespace Arbor

/-- What an attempt comes to: a result, or something to report if time is up. -/
inductive Progress (β α : Type)
  | done (a : α)
  | pending (b : β)
deriving DecidableEq

/-- How often to try, and for how long. -/
structure Poller where
  interval : Duration
  timeout : Duration

/-- Where the clock ends: seconds are counted in 64 bits with a sign. -/
def clockEnd : Nat := 0x8000000000000000 * 1000000000

namespace Poller

variable {σ α β : Type}

/-- The pause after an attempt that is not the last. -/
def pause (p : Poller) : Nat := max p.interval.nanos 1000000

theorem pause_pos (p : Poller) : 0 < p.pause := by
  unfold pause; omega

/-- The instant of the last attempt, if the clock gets there. -/
def deadline (p : Poller) (start : Nat) : Option Nat :=
  if start + p.timeout.nanos < clockEnd then some (start + p.timeout.nanos) else none

/-- The instant from which on there are no further attempts. -/
def limit (deadline : Option Nat) : Nat := deadline.getD clockEnd

/-- When the next attempt starts, after one that ended at the instant `t`. -/
def next (p : Poller) (deadline : Option Nat) (t : Nat) : Nat :=
  match deadline with
  | some d => min (t + p.pause) d
  | none => t + p.pause

/-- Time moves on between attempts. -/
theorem lt_next (p : Poller) {deadline : Option Nat} {t : Nat} (h : t < limit deadline) :
    t < p.next deadline t := by
  have := p.pause_pos
  cases deadline with
  | none => simp only [next]; omega
  | some d => simp only [limit, Option.getD_some] at h; simp only [next]; omega

/-- What to make of time being up. -/
def expire (deadline : Option Nat) (b : β) : Except Failure (Progress β α) :=
  match deadline with
  | some _ => .ok (.pending b)
  | none => .error .clockEnded

/-- The attempts from the instant `now` on. -/
def runFrom (p : Poller) (attempt : Action Failure σ (Progress β α)) (deadline : Option Nat)
    (now : Nat) (s : σ) : Ended Failure σ (Progress β α) :=
  match attempt now s with
  | ⟨.ok (.pending b), elapsed, s'⟩ =>
    if h : now + elapsed < limit deadline then
      let start := p.next deadline (now + elapsed)
      have : limit deadline - start < limit deadline - now := by
        have := p.lt_next h
        show limit deadline - p.next deadline (now + elapsed) < limit deadline - now
        omega
      Action.later (start - now) (runFrom p attempt deadline start s')
    else ⟨expire deadline b, elapsed, s'⟩
  | e => e
termination_by limit deadline - now

/-- Attempts until one has a result, one fails, or time is up. -/
def run (p : Poller) (attempt : Action Failure σ (Progress β α)) :
    Action Failure σ (Progress β α) := fun now s =>
  p.runFrom attempt (p.deadline now) now s

end Poller
end Arbor

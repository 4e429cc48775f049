/-
# When attempts are made

A run makes its attempts one after another, and of each of them the chain (`Poller.Attempts`) says
what follows:

| an attempt | then |
| --- | --- |
| comes to nothing before the deadline | there is another, a pause later or at the deadline |
| comes to nothing at the deadline or after | it is the last, and the run comes to nothing |
| has a result or fails | it is the last, and the run ends with it |

An attempt may take any time, also more than is left before the deadline.  Between two starts there
is at least a pause (`Poller.Attempts.min_le_start`), so a run makes at most one attempt more than
it takes pauses to fill the timeout (`Poller.Attempts.length_le`), and exactly as many if the
attempts take no time and all come to nothing (`Poller.Attempts.getElem?_offset`).
`Poller.timetable` puts this together; that it is about the attempts that are made, a run with a
record tells (`Poller.recorded`).
-/

import Mathlib.Algebra.Order.Floor.Div
import Arbor.Proofs.Session.Attempts

namespace Arbor
namespace Poller

open Arbor.Action

variable {σ α β : Type}

/-! ## Runs and their record -/

/-- An action that keeps a record of when and in which state it starts. -/
def recorded (attempt : Action Failure σ α) : Action Failure (σ × List (Nat × σ)) α :=
  fun now s => ⟨(attempt now s.1).result, (attempt now s.1).elapsed,
    (attempt now s.1).state, s.2 ++ [(now, s.1)]⟩

variable {p : Poller} {attempt : Action Failure σ (Progress β α)} {deadline : Option Nat}
  {k : Nat} {s : σ} {made : List (Nat × σ)} {x y : Nat × σ}

namespace Attempts

/-- To keep a record changes nothing else, and the record is the chain. -/
theorem runFrom_recorded (h : Attempts p attempt deadline x made) (record : List (Nat × σ)) :
    p.runFrom (recorded attempt) deadline x.1 (x.2, record) =
      ⟨(p.runFrom attempt deadline x.1 x.2).result, (p.runFrom attempt deadline x.1 x.2).elapsed,
        (p.runFrom attempt deadline x.1 x.2).state, record ++ made⟩ := by
  induction h generalizing record with
  | @last x h =>
    have hrecorded : IsPending (recorded attempt x.1 (x.2, record)).result →
        limit deadline ≤ x.1 + (recorded attempt x.1 (x.2, record)).elapsed := h
    rw [runFrom_of_last hrecorded, runFrom_of_last h]
    rfl
  | @more x made hpending hlimit hrest ih =>
    have hrecorded : IsPending (recorded attempt x.1 (x.2, record)).result := hpending
    rw [runFrom_of_lt hrecorded hlimit, runFrom_of_lt hpending hlimit]
    refine (congrArg (later _) (ih (record ++ [x]))).trans ?_
    rw [List.append_assoc]
    rfl

end Attempts

/-! ## How many attempts -/

theorem min_le_next (p : Poller) (deadline : Option Nat) (t : Nat) :
    min (t + p.pause) (limit deadline) ≤ p.next deadline t := by
  cases deadline with
  | none => exact Nat.min_le_left _ _
  | some d => exact Nat.le_refl _

theorem next_le (p : Poller) (d t : Nat) : p.next (some d) t ≤ d := Nat.min_le_right _ _

theorem limit_deadline_le (p : Poller) (start : Nat) :
    limit (p.deadline start) ≤ start + p.timeout.nanos := by
  rw [deadline]
  split
  · exact Nat.le_refl _
  · next h => exact Nat.not_lt.1 h

theorem last_eq (p : Poller) : p.last = p.timeout.nanos ⌈/⌉ p.pause :=
  (Nat.ceilDiv_eq_add_pred_div _ _).symm

namespace Attempts

/-- No attempt starts after a deadline. -/
theorem le_deadline {d : Nat} (h : Attempts p attempt (some d) y made) (hy : y.1 ≤ d) :
    ∀ x ∈ made, x.1 ≤ d := by
  induction h with
  | last => exact List.forall_mem_singleton.2 hy
  | more _ _ _ ih => exact List.forall_mem_cons.2 ⟨hy, ih (p.next_le d _)⟩

/-- After another attempt there is one only if it came to nothing in time. -/
theorem of_getElem?_succ (h : Attempts p attempt deadline y made) (hx : made[k]? = some x)
    (hk : k + 1 < made.length) :
    IsPending (attempt x.1 x.2).result ∧ finish attempt x < limit deadline := by
  by_contra hlast
  have hlength := (h.ends_with hx fun hpending => Nat.not_lt.1 fun hlt => hlast ⟨hpending, hlt⟩).1
  omega

/-- Attempts are a pause apart, or more. -/
theorem min_le_start (h : Attempts p attempt deadline y made) (hx : made[k]? = some x) :
    min (y.1 + k * p.pause) (limit deadline) ≤ x.1 := by
  induction k generalizing x with
  | zero =>
    obtain rfl := Option.some.inj (h.getElem?_zero.symm.trans hx)
    rw [Nat.zero_mul, Nat.add_zero]
    exact Nat.min_le_left _ _
  | succ k ih =>
    have hk : k + 1 < made.length := (List.getElem?_eq_some_iff.1 hx).1
    have hbefore : made[k]? = some made[k] := List.getElem?_eq_getElem (by omega)
    obtain ⟨hpending, hlimit⟩ := h.of_getElem?_succ hbefore hk
    obtain rfl := Option.some.inj ((h.getElem?_succ hbefore hpending hlimit).symm.trans hx)
    have hmin := ih hbefore
    have hnext := p.min_le_next deadline (finish attempt made[k])
    have hmul : (k + 1) * p.pause = k * p.pause + p.pause := Nat.succ_mul ..
    have hfinish : made[k].1 ≤ finish attempt made[k] := Nat.le_add_right _ _
    dsimp only
    omega

/-- So there is at most one attempt more than there are pauses. -/
theorem length_le {start : Nat} (h : Attempts p attempt (p.deadline start) (start, s) made) :
    made.length ≤ p.last + 1 := by
  by_contra hlength
  have hx : made[p.last]? = some made[p.last] := List.getElem?_eq_getElem (by omega)
  have hlimit := (h.of_getElem?_succ hx (by omega)).2
  have hstart := h.min_le_start hx
  have hfinish : made[p.last].1 ≤ finish attempt made[p.last] := Nat.le_add_right _ _
  have hend := p.limit_deadline_le start
  have hless : p.last * p.pause < p.timeout.nanos := by omega
  exact Nat.lt_irrefl _ (lt_last_iff.2 hless)

/-- Attempts that take no time and come to nothing go on up to the deadline. -/
theorem getElem?_offset {start : Nat}
    (h : Attempts p attempt (some (start + p.timeout.nanos)) (start, s) made)
    (hempty : ∀ x ∈ made, IsPending (attempt x.1 x.2).result ∧ (attempt x.1 x.2).elapsed = 0)
    (hk : k ≤ p.last) : ∃ s', made[k]? = some (start + p.offset k, s') := by
  induction k with
  | zero => exact ⟨s, by rw [offset_zero]; exact h.getElem?_zero⟩
  | succ k ih =>
    obtain ⟨s', hx⟩ := ih (by omega)
    obtain ⟨hpending, helapsed⟩ := hempty _ (List.mem_of_getElem? hx)
    have hfinish : finish attempt (start + p.offset k, s') = start + p.offset k := by
      rw [finish, helapsed, Nat.add_zero]
    have hlimit : finish attempt (start + p.offset k, s') <
        limit (some (start + p.timeout.nanos)) := by
      rw [hfinish]
      exact Nat.add_lt_add_left (p.offset_lt hk) start
    have hnext := h.getElem?_succ hx hpending hlimit
    rw [hfinish, p.next_offset hk] at hnext
    exact ⟨_, hnext⟩

end Attempts

/-! ## The timetable of a run -/

/-- A run from `start` ends with an attempt: in its way and at its time. -/
structure EndsWith (attempt : Action Failure σ (Progress β α)) (start : Nat)
    (ended : Ended Failure σ (Progress β α)) (x : Nat × σ) : Prop where
  result : ended.result = (attempt x.1 x.2).result
  time : start + ended.elapsed = finish attempt x
  state : ended.state = (attempt x.1 x.2).state

/-- When a run from `start` makes attempts, and how it ends.  `made` says when and in which state
they start. -/
structure Timetable (p : Poller) (attempt : Action Failure σ (Progress β α)) (start : Nat) (s : σ)
    (made : List (Nat × σ)) (ended : Ended Failure σ (Progress β α)) : Prop where
  recorded : p.run (recorded attempt) start (s, []) =
    ⟨ended.result, ended.elapsed, ended.state, made⟩
  first : made[0]? = some (start, s)
  notLate : start + p.timeout.nanos < clockEnd → ∀ x ∈ made, x.1 ≤ start + p.timeout.nanos
  next : start + p.timeout.nanos < clockEnd → ∀ k x, made[k]? = some x →
    IsPending (attempt x.1 x.2).result → finish attempt x < start + p.timeout.nanos →
      made[k + 1]? = some (min (finish attempt x + p.pause) (start + p.timeout.nanos),
        (attempt x.1 x.2).state)
  nextUnbounded : clockEnd ≤ start + p.timeout.nanos → ∀ k x, made[k]? = some x →
    IsPending (attempt x.1 x.2).result → finish attempt x < clockEnd →
      made[k + 1]? = some (finish attempt x + p.pause, (attempt x.1 x.2).state)
  decided : ∀ k x, made[k]? = some x → ¬IsPending (attempt x.1 x.2).result →
    made.length = k + 1 ∧ EndsWith attempt start ended x
  timeUp : start + p.timeout.nanos < clockEnd → ∀ k x, made[k]? = some x →
    IsPending (attempt x.1 x.2).result → start + p.timeout.nanos ≤ finish attempt x →
      made.length = k + 1 ∧ EndsWith attempt start ended x
  expired : IsPending ended.result → start + p.timeout.nanos < clockEnd ∧
    ∃ k x, made[k]? = some x ∧ made.length = k + 1 ∧ EndsWith attempt start ended x ∧
      start + p.timeout.nanos ≤ finish attempt x
  atMost : made.length ≤ p.timeout.nanos ⌈/⌉ p.pause + 1
  exactly : start + p.timeout.nanos < clockEnd →
    (∀ x ∈ made, IsPending (attempt x.1 x.2).result ∧ (attempt x.1 x.2).elapsed = 0) →
      made.length = p.timeout.nanos ⌈/⌉ p.pause + 1 ∧
        ∃ s', made[p.timeout.nanos ⌈/⌉ p.pause]? = some (start + p.timeout.nanos, s')

section Run

variable {start : Nat}

theorem deadline_of_lt (h : start + p.timeout.nanos < clockEnd) :
    p.deadline start = some (start + p.timeout.nanos) := if_pos h

theorem deadline_of_le (h : clockEnd ≤ start + p.timeout.nanos) :
    p.deadline start = none := if_neg (Nat.not_lt.2 h)

/-- A run ends with its last attempt, if time being up is no failure. -/
theorem endsWith_of_last (hx : (p.starts attempt start s)[k]? = some x)
    (hlast : IsPending (attempt x.1 x.2).result → limit (p.deadline start) ≤ finish attempt x)
    (hverdict : verdict (p.deadline start) (attempt x.1 x.2).result = (attempt x.1 x.2).result) :
    (p.starts attempt start s).length = k + 1 ∧
      EndsWith attempt start (p.run attempt start s) x := by
  obtain ⟨hlength, hresult, htime, hstate⟩ :=
    (p.attempts_starts attempt start s).ends_with hx hlast
  exact ⟨hlength, hresult.trans hverdict, htime, hstate⟩

/-- A run that comes to nothing has a deadline, and ends with an attempt that was not in time. -/
theorem exists_of_isPending_run (h : IsPending (p.run attempt start s).result) :
    start + p.timeout.nanos < clockEnd ∧
      ∃ k x, (p.starts attempt start s)[k]? = some x ∧
        (p.starts attempt start s).length = k + 1 ∧
        EndsWith attempt start (p.run attempt start s) x ∧
        start + p.timeout.nanos ≤ finish attempt x := by
  obtain ⟨before, x, hmade, -, hlast⟩ := (p.attempts_starts attempt start s).exists_last
  have hx : (p.starts attempt start s)[before.length]? = some x := by
    rw [hmade, List.getElem?_concat_length]
  by_cases hstart : start + p.timeout.nanos < clockEnd
  · have hdeadline := deadline_of_lt hstart
    obtain ⟨hlength, hends⟩ := endsWith_of_last hx hlast (by rw [hdeadline, verdict_some])
    have hlimit := hlast (hends.result ▸ h)
    rw [hdeadline] at hlimit
    exact ⟨hstart, before.length, x, hx, hlength, hends, hlimit⟩
  · -- without a deadline, time being up is a failure
    obtain ⟨-, hresult, -, -⟩ := (p.attempts_starts attempt start s).ends_with hx hlast
    rw [run, hresult, deadline_of_le (Nat.not_lt.1 hstart)] at h
    exact absurd h not_isPending_verdict_none

end Run

/-- **When a poller makes attempts, and how it ends.**  For every interval, every timeout and
attempts that take any time:

- no attempt starts after the deadline;
- after an attempt that comes to nothing before the deadline, the next starts a pause later, or at
  the deadline if that is sooner;
- the first attempt that has a result or fails is the last, and the run ends with it;
- the run comes to nothing only with an attempt that did so, and that ended at the deadline or
  after;
- there is at most one attempt more than it takes pauses to fill the timeout, and if the attempts
  take no time and come to nothing, there are exactly as many and the last is at the deadline.

Where the clock cannot hold the deadline there is none, and a run never comes to nothing. -/
theorem timetable (p : Poller) (attempt : Action Failure σ (Progress β α)) (start : Nat) (s : σ) :
    Timetable p attempt start s (p.starts attempt start s) (p.run attempt start s) := by
  have h := p.attempts_starts attempt start s
  refine ⟨h.runFrom_recorded [], h.getElem?_zero, fun hstart => ?_,
    fun hstart k x hx hpending hlt => ?_, fun hstart k x hx hpending hlt => ?_,
    fun k x hx hdone => ?_, fun hstart k x hx hpending hle => ?_, exists_of_isPending_run, ?_,
    fun hstart hempty => ?_⟩
  · rw [deadline_of_lt hstart] at h
    exact h.le_deadline (Nat.le_add_right _ _)
  · rw [deadline_of_lt hstart] at h
    exact h.getElem?_succ hx hpending hlt
  · rw [deadline_of_le hstart] at h
    exact h.getElem?_succ hx hpending hlt
  · exact endsWith_of_last hx (fun hpending => absurd hpending hdone)
      (verdict_of_not_isPending hdone _)
  · have hdeadline := deadline_of_lt hstart
    refine endsWith_of_last hx (fun _ => ?_) (by rw [hdeadline, verdict_some])
    rw [hdeadline]
    exact hle
  · rw [← last_eq]
    exact h.length_le
  · rw [← last_eq]
    rw [deadline_of_lt hstart] at h
    obtain ⟨s', hx⟩ := h.getElem?_offset hempty (Nat.le_refl _)
    rw [offset_last] at hx
    exact ⟨(h.ends_with hx fun _ => Nat.le_add_right _ _).1, s', hx⟩

/-- An attempt that comes to nothing, after a while. -/
def fruitless (nanos : Nat) : Action Failure Unit (Progress Unit Unit) :=
  fun _ s => ⟨.ok (.pending ()), nanos, s⟩

/-- Every 300 milliseconds for a second. -/
def brief : Poller := ⟨.ofMillis 300, .ofMillis 1000⟩

/-- In a second there are five attempts 300 milliseconds apart, the last of them after the second.
If an attempt takes 400 milliseconds there are two, the second after 700 milliseconds, and the run
ends when it ends.  If the clock cannot hold the deadline, no run comes to nothing. -/
theorem timetable_fruitless :
    ((brief.starts (fruitless 0) 0 ()).length = 5 ∧
        (brief.starts (fruitless 0) 0 ())[4]? = some (1000000000, ())) ∧
      ((brief.starts (fruitless 400000000) 0 ()).length = 2 ∧
        (brief.starts (fruitless 400000000) 0 ())[1]? = some (700000000, ()) ∧
        (brief.run (fruitless 400000000) 0 ()).result = .ok (.pending ()) ∧
        (brief.run (fruitless 400000000) 0 ()).elapsed = 1100000000) ∧
      ¬IsPending ((Poller.mk (.ofMillis 300) .longest).run (fruitless 0) 0 ()).result := by
  have hidle := timetable brief (fruitless 0) 0 ()
  have hslow := timetable brief (fruitless 400000000) 0 ()
  have hpending : ∀ nanos, IsPending (fruitless nanos 0 ()).result := fun _ => ⟨(), rfl⟩
  have hclock : 0 + brief.timeout.nanos < clockEnd := by decide
  have hceil : brief.timeout.nanos ⌈/⌉ brief.pause = 4 := (last_eq brief).symm
  obtain ⟨hlength, s', hlast⟩ := hidle.exactly hclock fun x _ => ⟨⟨(), rfl⟩, rfl⟩
  rw [hceil] at hlength hlast
  have hsecond := hslow.next hclock 0 _ hslow.first (hpending _) (by decide)
  obtain ⟨htwo, hends⟩ := hslow.timeUp hclock 1 _ hsecond (hpending _) (by decide)
  refine ⟨⟨hlength, hlast⟩, ⟨htwo, hsecond, hends.result, ?_⟩, fun h => ?_⟩
  · have htime := hends.time
    rw [Nat.zero_add] at htime
    exact htime
  · have hunbounded := ((timetable _ _ _ _).expired h).1
    exact absurd hunbounded (by decide)

end Poller
end Arbor

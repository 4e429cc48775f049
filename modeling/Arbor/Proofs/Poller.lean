/-
# Attempts that take no time

A poller whose attempts take no time makes them at known instants: one pause apart, and the last of
them at the deadline (`Poller.offset`, `Poller.last`).  `Poller.run_of_instantly` says which of them
decides: the first that has a result or fails, or else the last, whatever it comes to.
-/

import Arbor.Poller
import Arbor.Proofs.Action

namespace Arbor
namespace Poller

open Arbor.Action

variable {σ α β : Type} {p : Poller} {attempt : Action Failure σ (Progress β α)}

/-! ## Instants -/

/-- How long after the start an attempt begins.  Attempts are numbered from 0. -/
def offset (p : Poller) (k : Nat) : Nat := min (k * p.pause) p.timeout.nanos

/-- The number of the attempt at the deadline. -/
def last (p : Poller) : Nat := (p.timeout.nanos + p.pause - 1) / p.pause

@[simp] theorem offset_zero (p : Poller) : p.offset 0 = 0 := by
  rw [offset, Nat.zero_mul, Nat.zero_min]

theorem lt_last_iff {k : Nat} : k < p.last ↔ k * p.pause < p.timeout.nanos := by
  have hpause := p.pause_pos
  have hmul : (k + 1) * p.pause = k * p.pause + p.pause := Nat.succ_mul ..
  rw [last, Nat.lt_iff_add_one_le, Nat.le_div_iff_mul_le hpause]
  omega

/-- The last attempt is at the deadline. -/
theorem offset_last (p : Poller) : p.offset p.last = p.timeout.nanos := by
  have hlast : ¬p.last * p.pause < p.timeout.nanos := fun h => Nat.lt_irrefl _ (lt_last_iff.2 h)
  rw [offset]
  omega

/-- The others are before. -/
theorem offset_lt {k : Nat} (h : k < p.last) : p.offset k < p.timeout.nanos := by
  rw [lt_last_iff] at h
  rw [offset]
  omega

theorem offset_mono {j k : Nat} (h : j ≤ k) : p.offset j ≤ p.offset k := by
  have hmul : j * p.pause ≤ k * p.pause := Nat.mul_le_mul_right _ h
  rw [offset, offset]
  omega

theorem next_offset {k : Nat} (h : k < p.last) (start : Nat) :
    p.next (some (start + p.timeout.nanos)) (start + p.offset k) = start + p.offset (k + 1) := by
  rw [lt_last_iff] at h
  have hmul : (k + 1) * p.pause = k * p.pause + p.pause := Nat.succ_mul ..
  rw [next, offset, offset]
  omega

/-! ## Attempts -/

/-- The state before an attempt, if the poller goes on until then. -/
def stateAt (p : Poller) (attempt : Action Failure σ (Progress β α)) (start : Nat) (s : σ) :
    Nat → σ
  | 0 => s
  | k + 1 => (attempt (start + p.offset k) (p.stateAt attempt start s k)).state

/-- An attempt, if the poller goes on until then. -/
def attemptAt (p : Poller) (attempt : Action Failure σ (Progress β α)) (start : Nat) (s : σ)
    (k : Nat) : Ended Failure σ (Progress β α) :=
  attempt (start + p.offset k) (p.stateAt attempt start s k)

/-- Neither a result nor a failure. -/
def IsPending (r : Except Failure (Progress β α)) : Prop := ∃ b, r = .ok (.pending b)

theorem not_isPending_done (a : α) :
    ¬IsPending (.ok (.done a) : Except Failure (Progress β α)) := by
  rintro ⟨b, h⟩
  exact absurd h (by simp)

theorem not_isPending_error (failure : Failure) :
    ¬IsPending (.error failure : Except Failure (Progress β α)) := by
  rintro ⟨b, h⟩
  exact absurd h (by simp)

/-- What a poller makes of its last attempt. -/
def verdict (deadline : Option Nat) :
    Except Failure (Progress β α) → Except Failure (Progress β α)
  | .ok (.pending b) => expire deadline b
  | .ok (.done a) => .ok (.done a)
  | .error failure => .error failure

/-- A result or a failure stays what it is. -/
theorem verdict_of_not_isPending {r : Except Failure (Progress β α)} (h : ¬IsPending r)
    (deadline : Option Nat) : verdict deadline r = r := by
  match r with
  | .ok (.pending b) => exact absurd ⟨b, rfl⟩ h
  | .ok (.done _) => rfl
  | .error _ => rfl

/-- So does everything at a deadline. -/
@[simp] theorem verdict_some (deadline : Nat) (r : Except Failure (Progress β α)) :
    verdict (some deadline) r = r := by
  by_cases h : IsPending r
  · obtain ⟨b, rfl⟩ := h
    rfl
  · exact verdict_of_not_isPending h _

/-- Time being up is no result. -/
theorem verdict_eq_done_iff {deadline : Option Nat} {r : Except Failure (Progress β α)} {a : α} :
    verdict deadline r = .ok (.done a) ↔ r = .ok (.done a) := by
  by_cases h : IsPending r
  · obtain ⟨b, rfl⟩ := h
    cases deadline with
    | none => simp [verdict, expire]
    | some d => rw [verdict_some]
  · rw [verdict_of_not_isPending h]

/-- Without a deadline there is no coming to nothing. -/
theorem not_isPending_verdict_none {r : Except Failure (Progress β α)} :
    ¬IsPending (verdict none r) := by
  by_cases h : IsPending r
  · obtain ⟨b, rfl⟩ := h
    exact not_isPending_error .clockEnded
  · rw [verdict_of_not_isPending h]
    exact h

section Run

variable {deadline : Option Nat} {now : Nat} {s : σ}

/-- There is another attempt after one that came to nothing in time. -/
theorem runFrom_of_lt (hpending : IsPending (attempt now s).result)
    (hlimit : now + (attempt now s).elapsed < limit deadline) :
    p.runFrom attempt deadline now s =
      later (p.next deadline (now + (attempt now s).elapsed) - now)
        (p.runFrom attempt deadline (p.next deadline (now + (attempt now s).elapsed))
          (attempt now s).state) := by
  obtain ⟨b, hb⟩ := hpending
  have hattempt : attempt now s = ⟨.ok (.pending b), (attempt now s).elapsed,
      (attempt now s).state⟩ := by rw [← hb]
  rw [runFrom, hattempt]
  simp only [dif_pos hlimit]

/-- There is none after any other. -/
theorem runFrom_of_last (h : IsPending (attempt now s).result →
      limit deadline ≤ now + (attempt now s).elapsed) :
    p.runFrom attempt deadline now s =
      ⟨verdict deadline (attempt now s).result, (attempt now s).elapsed,
        (attempt now s).state⟩ := by
  rw [runFrom]
  split
  · next b elapsed s' hattempt =>
    rw [hattempt] at h
    rw [hattempt, dif_neg (Nat.not_lt.2 (h ⟨b, rfl⟩))]
    rfl
  · next hdone =>
    rw [verdict_of_not_isPending]
    rintro ⟨b, hb⟩
    exact hdone b _ _ (by rw [← hb])

end Run

section Step

variable {deadline now : Nat} {s : σ}

/-- Before the deadline the poller goes on after an attempt that came to nothing. -/
theorem runFrom_of_isPending (hinstantly : Instantly attempt) (hnow : now < deadline)
    (hpending : IsPending (attempt now s).result) :
    p.runFrom attempt (some deadline) now s =
      later (p.next (some deadline) now - now)
        (p.runFrom attempt (some deadline) (p.next (some deadline) now) (attempt now s).state) := by
  have hlimit : now + (attempt now s).elapsed < limit (some deadline) := by
    rw [hinstantly now s]
    exact hnow
  rw [runFrom_of_lt hpending hlimit, hinstantly now s, Nat.add_zero]

/-- It stops at the deadline, and with an attempt that came to something. -/
theorem runFrom_of_stop (hinstantly : Instantly attempt)
    (hstop : deadline ≤ now ∨ ¬IsPending (attempt now s).result) :
    p.runFrom attempt (some deadline) now s = attempt now s := by
  rw [runFrom_of_last fun hpending => ?_, verdict_some]
  rw [hinstantly now s]
  exact hstop.resolve_right fun h => h hpending

end Step

/-- From the attempt `j` on, the attempt `j + m` decides. -/
theorem runFrom_offset (hinstantly : Instantly attempt) {start : Nat} {s : σ} {j m : Nat}
    (hlast : j + m ≤ p.last)
    (hbefore : ∀ i < j + m, IsPending (p.attemptAt attempt start s i).result)
    (hstop : j + m = p.last ∨ ¬IsPending (p.attemptAt attempt start s (j + m)).result) :
    p.runFrom attempt (some (start + p.timeout.nanos)) (start + p.offset j)
        (p.stateAt attempt start s j) =
      ⟨(p.attemptAt attempt start s (j + m)).result, p.offset (j + m) - p.offset j,
        (p.attemptAt attempt start s (j + m)).state⟩ := by
  induction m generalizing j with
  | zero =>
    have hend : start + p.timeout.nanos ≤ start + p.offset j ∨
        ¬IsPending (p.attemptAt attempt start s j).result := by
      refine hstop.imp_left fun h => Nat.le_of_eq ?_
      rw [show j = p.last from h, offset_last]
    rw [Nat.add_zero, Nat.sub_self]
    exact (runFrom_of_stop hinstantly hend).trans (hinstantly.eq _ _)
  | succ m ih =>
    have hj : j < p.last := by omega
    have hoffset := p.offset_lt hj
    rw [show j + (m + 1) = j + 1 + m by omega] at hlast hbefore hstop ⊢
    rw [runFrom_of_isPending hinstantly (by omega) (hbefore j (by omega)), next_offset hj]
    refine (congrArg (later _) (ih hlast hbefore hstop)).trans ?_
    have hnext : p.offset j ≤ p.offset (j + 1) := offset_mono (by omega)
    have hrest : p.offset (j + 1) ≤ p.offset (j + 1 + m) := offset_mono (by omega)
    have helapsed : start + p.offset (j + 1) - (start + p.offset j) +
        (p.offset (j + 1 + m) - p.offset (j + 1)) = p.offset (j + 1 + m) - p.offset j := by
      omega
    rw [later, helapsed]

/-- **Which attempt decides.**  Where attempts take no time and there is a deadline, a poller ends
with the first attempt that is not pending, or else with the one at the deadline, at the time of
that attempt. -/
theorem run_of_instantly (hinstantly : Instantly attempt) {start : Nat}
    (hdeadline : start + p.timeout.nanos < clockEnd) {s : σ} {k : Nat} (hlast : k ≤ p.last)
    (hbefore : ∀ j < k, IsPending (p.attemptAt attempt start s j).result)
    (hstop : k = p.last ∨ ¬IsPending (p.attemptAt attempt start s k).result) :
    p.run attempt start s =
      ⟨(p.attemptAt attempt start s k).result, p.offset k,
        (p.attemptAt attempt start s k).state⟩ := by
  have h := runFrom_offset (p := p) (s := s) hinstantly (j := 0) (m := k) (by omega)
    (by simpa using hbefore) (by simpa using hstop)
  simp only [Nat.zero_add, offset_zero, Nat.add_zero, Nat.sub_zero] at h
  rw [run, deadline, if_pos hdeadline]
  exact h

end Poller
end Arbor

/-
# The attempt that decides

The attempts of a poller follow one another in a chain (`Poller.Attempts`): each but the last comes
to nothing in time, and the next starts in the state that it left.  Whatever is said of the attempts
of a run is read off the chain, and from any of them on the chain is the same
(`Poller.Attempts.drop`).  The last attempt decides: the poller has its result if it has one, and
ends where it ended (`Poller.exists_decides`).  This holds of every remote side, however long its
calls take.

A wait of a session is a poller and what it makes of time being up, a failure; its results are those
of the last attempt (`Poller.Decides.result_eq_ok_iff`).
-/

import Arbor.Proofs.Poller
import Arbor.Proofs.Session.Operations

namespace Arbor

open Arbor.Action

variable {σ α β : Type}

namespace Poller

/-! ## The chain of attempts -/

/-- When an attempt ends, by when and in which state it starts. -/
def finish (attempt : Action Failure σ α) (x : Nat × σ) : Nat := x.1 + (attempt x.1 x.2).elapsed

/-- When and in which state the attempts of a run start. -/
def starts (p : Poller) (attempt : Action Failure σ (Progress β α)) (now : Nat) (s : σ) :
    List (Nat × σ) :=
  p.startsFrom attempt (p.deadline now) now s

/-- Attempts from one on, by when and in which state they start. -/
inductive Attempts (p : Poller) (attempt : Action Failure σ (Progress β α))
    (deadline : Option Nat) : Nat × σ → List (Nat × σ) → Prop
  | last {x : Nat × σ}
    (h : IsPending (attempt x.1 x.2).result → limit deadline ≤ finish attempt x) :
    Attempts p attempt deadline x [x]
  | more {x : Nat × σ} {made : List (Nat × σ)} (hpending : IsPending (attempt x.1 x.2).result)
    (hlimit : finish attempt x < limit deadline)
    (hrest : Attempts p attempt deadline
      (p.next deadline (finish attempt x), (attempt x.1 x.2).state) made) :
    Attempts p attempt deadline x (x :: made)

variable {p : Poller} {attempt : Action Failure σ (Progress β α)} {deadline : Option Nat}
  {now k : Nat} {s : σ} {made : List (Nat × σ)} {x y : Nat × σ}

/-- The attempts of a poller are such a chain. -/
theorem attempts_startsFrom (p : Poller) (attempt : Action Failure σ (Progress β α))
    (deadline : Option Nat) (now : Nat) (s : σ) :
    Attempts p attempt deadline (now, s) (p.startsFrom attempt deadline now s) := by
  fun_induction Poller.runFrom p attempt deadline now s with
  | case1 now s b elapsed s' hattempt hlimit start hfall ih =>
    rw [startsFrom_of_pending hattempt hlimit]
    refine .more ⟨b, by rw [hattempt]⟩ ?_ ?_
    · rw [finish, hattempt]
      exact hlimit
    · rw [finish, hattempt]
      exact ih
  | case2 now s b elapsed s' hattempt hlimit =>
    rw [startsFrom_of_late hattempt hlimit]
    refine .last fun _ => ?_
    rw [finish, hattempt]
    exact Nat.not_lt.1 hlimit
  | case3 now s hdone =>
    have hended : ∀ b, (attempt now s).result ≠ .ok (.pending b) :=
      fun b hb => hdone b _ _ (by rw [← hb])
    rw [startsFrom_of_ended hended]
    refine .last ?_
    rintro ⟨b, hb⟩
    exact absurd hb (hended b)

theorem attempts_starts (p : Poller) (attempt : Action Failure σ (Progress β α)) (now : Nat)
    (s : σ) : Attempts p attempt (p.deadline now) (now, s) (p.starts attempt now s) :=
  p.attempts_startsFrom attempt (p.deadline now) now s

namespace Attempts

theorem getElem?_zero (h : Attempts p attempt deadline x made) : made[0]? = some x := by
  cases h with
  | last => rfl
  | more => rfl

/-- There is no other chain. -/
theorem unique {made' : List (Nat × σ)} (h : Attempts p attempt deadline x made)
    (h' : Attempts p attempt deadline x made') : made = made' := by
  induction h generalizing made' with
  | last hlast =>
    cases h' with
    | last => rfl
    | more hpending hlimit => exact absurd hlimit (Nat.not_lt.2 (hlast hpending))
  | more hpending hlimit _ ih =>
    cases h' with
    | last hlast => exact absurd hlimit (Nat.not_lt.2 (hlast hpending))
    | more _ _ hrest => rw [ih hrest]

theorem forall_mem {P : σ → Prop} (h : Attempts p attempt deadline y made)
    (hattempt : ∀ now s, P s → P (attempt now s).state) (hy : P y.2) : ∀ x ∈ made, P x.2 := by
  induction h with
  | last => exact List.forall_mem_singleton.2 hy
  | more _ _ _ ih => exact List.forall_mem_cons.2 ⟨hy, ih (hattempt _ _ hy)⟩

/-- All but the last come to nothing in time, and the last does not. -/
theorem exists_last (h : Attempts p attempt deadline y made) :
    ∃ before last, made = before ++ [last] ∧
      (∀ x ∈ before, IsPending (attempt x.1 x.2).result) ∧
      (IsPending (attempt last.1 last.2).result → limit deadline ≤ finish attempt last) := by
  induction h with
  | @last x h => exact ⟨[], x, rfl, by simp, h⟩
  | @more x made hpending _ _ ih =>
    obtain ⟨before, last, rfl, hbefore, hlast⟩ := ih
    exact ⟨x :: before, last, rfl, List.forall_mem_cons.2 ⟨hpending, hbefore⟩, hlast⟩

/-- From any attempt on it is the same chain, and the same run, which ends when it ends. -/
theorem drop (h : Attempts p attempt deadline y made) (hx : made[k]? = some x) :
    Attempts p attempt deadline x (made.drop k) ∧
      later x.1 (p.runFrom attempt deadline x.1 x.2) =
        later y.1 (p.runFrom attempt deadline y.1 y.2) := by
  induction h generalizing k with
  | @last y h =>
    cases k with
    | zero =>
      obtain rfl := Option.some.inj hx
      exact ⟨.last h, rfl⟩
    | succ k => exact absurd hx (by simp)
  | @more y made hpending hlimit hrest ih =>
    cases k with
    | zero =>
      obtain rfl := Option.some.inj hx
      exact ⟨.more hpending hlimit hrest, rfl⟩
    | succ k =>
      obtain ⟨hchain, hend⟩ := ih hx
      have hnext : y.1 ≤ p.next deadline (finish attempt y) :=
        Nat.le_trans (Nat.le_add_right _ _) (Nat.le_of_lt (p.lt_next hlimit))
      refine ⟨hchain, hend.trans ?_⟩
      rw [runFrom_of_lt hpending hlimit, later_later]
      exact congrArg (later · _) (Nat.add_sub_of_le hnext).symm

/-- An attempt that comes to nothing in time is followed by another. -/
theorem getElem?_succ (h : Attempts p attempt deadline y made) (hx : made[k]? = some x)
    (hpending : IsPending (attempt x.1 x.2).result) (hlimit : finish attempt x < limit deadline) :
    made[k + 1]? = some (p.next deadline (finish attempt x), (attempt x.1 x.2).state) := by
  have hdrop := (h.drop hx).1
  have hsecond : (made.drop k)[1]? = made[k + 1]? := List.getElem?_drop
  rw [← hsecond]
  generalize made.drop k = rest at hdrop
  cases hdrop with
  | last hlast => exact absurd hlimit (Nat.not_lt.2 (hlast hpending))
  | more _ _ hrest => exact hrest.getElem?_zero

/-- Any other is the last, and the run ends with it. -/
theorem ends_with (h : Attempts p attempt deadline y made) (hx : made[k]? = some x)
    (hlast : IsPending (attempt x.1 x.2).result → limit deadline ≤ finish attempt x) :
    made.length = k + 1 ∧
      (p.runFrom attempt deadline y.1 y.2).result = verdict deadline (attempt x.1 x.2).result ∧
      y.1 + (p.runFrom attempt deadline y.1 y.2).elapsed = finish attempt x ∧
      (p.runFrom attempt deadline y.1 y.2).state = (attempt x.1 x.2).state := by
  obtain ⟨hdrop, hend⟩ := h.drop hx
  have hlength : (made.drop k).length = 1 := by
    generalize made.drop k = rest at hdrop
    cases hdrop with
    | last => rfl
    | more hpending hlimit _ => exact absurd hlimit (Nat.not_lt.2 (hlast hpending))
  rw [List.length_drop] at hlength
  rw [runFrom_of_last hlast] at hend
  have hresult := congrArg Ended.result hend
  have htime := congrArg Ended.elapsed hend
  have hstate := congrArg Ended.state hend
  exact ⟨by omega, hresult.symm, htime.symm, hstate.symm⟩

/-- The end of a run is the end of its last attempt. -/
theorem exists_end (h : Attempts p attempt deadline y made) :
    ∃ before last, made = before ++ [last] ∧
      (∀ x ∈ before, IsPending (attempt x.1 x.2).result) ∧
      (IsPending (attempt last.1 last.2).result → limit deadline ≤ finish attempt last) ∧
      (p.runFrom attempt deadline y.1 y.2).result =
        verdict deadline (attempt last.1 last.2).result ∧
      y.1 + (p.runFrom attempt deadline y.1 y.2).elapsed = finish attempt last ∧
      (p.runFrom attempt deadline y.1 y.2).state = (attempt last.1 last.2).state := by
  obtain ⟨before, last, hmade, hbefore, hlast⟩ := h.exists_last
  have hx : made[before.length]? = some last := by rw [hmade, List.getElem?_concat_length]
  exact ⟨before, last, hmade, hbefore, hlast, (h.ends_with hx hlast).2⟩

end Attempts

theorem starts_eq (h : Attempts p attempt (p.deadline now) (now, s) made) :
    p.starts attempt now s = made := (p.attempts_starts attempt now s).unique h

/-- What every attempt keeps holds whenever an attempt starts. -/
theorem of_mem_startsFrom {P : σ → Prop} (hattempt : ∀ now s, P s → P (attempt now s).state)
    (hs : P s) : ∀ start ∈ p.startsFrom attempt deadline now s, P start.2 :=
  (p.attempts_startsFrom attempt deadline now s).forall_mem hattempt hs

/-! ## The last attempt -/

/-- The attempts from `now` on: when and in which state those start that come to nothing, and when
and in which state the last one starts, which decides. -/
structure Decides (p : Poller) (attempt : Action Failure σ (Progress β α)) (deadline : Option Nat)
    (now : Nat) (s : σ) (before : List (Nat × σ)) (last : Nat × σ) : Prop where
  starts : p.startsFrom attempt deadline now s = before ++ [last]
  pending : ∀ start ∈ before, IsPending (attempt start.1 start.2).result
  done_iff : ∀ a, (p.runFrom attempt deadline now s).result = .ok (.done a) ↔
    (attempt last.1 last.2).result = .ok (.done a)
  state : (p.runFrom attempt deadline now s).state = (attempt last.1 last.2).state

/-- **The last attempt decides.** -/
theorem exists_decides (p : Poller) (attempt : Action Failure σ (Progress β α))
    (deadline : Option Nat) (now : Nat) (s : σ) :
    ∃ before last, p.Decides attempt deadline now s before last := by
  obtain ⟨before, last, hmade, hbefore, -, hresult, -, hstate⟩ :=
    (p.attempts_startsFrom attempt deadline now s).exists_end
  refine ⟨before, last, hmade, hbefore, fun a => ?_, hstate⟩
  rw [hresult, verdict_eq_done_iff]

/-- An attempt with a result is the last. -/
theorem decides_of_done {a : α} (h : (attempt now s).result = .ok (.done a)) :
    p.Decides attempt deadline now s [] (now, s) := by
  have hdone : ¬IsPending (attempt now s).result := by
    rw [h]
    exact not_isPending_done a
  have hrun : p.runFrom attempt deadline now s = attempt now s := by
    rw [runFrom_of_last fun hpending => absurd hpending hdone, verdict_of_not_isPending hdone]
  exact ⟨startsFrom_of_ended fun b hb => hdone ⟨b, hb⟩, by simp, fun a => by rw [hrun],
    by rw [hrun]⟩

end Poller

/-! ## Waits of a session -/

namespace Poller.Decides

variable {s : Session σ} {timeout : Duration} {attempt : Exchange σ (Progress β α)}
  {f : Progress β α → Exchange σ α} {now : Nat} {l : Link σ} {before : List (Nat × Link σ)}
  {last : Nat × Link σ}

/-- A wait that makes a failure of time being up has the results of its last attempt. -/
theorem result_eq_ok_iff
    (h : (s.poller timeout).Decides attempt ((s.poller timeout).deadline now) now l before last)
    (hdone : ∀ a, f (.done a) = pure a) (hpending : ∀ b, ∃ e, f (.pending b) = Action.fail e)
    (a : α) :
    ((s.poll timeout attempt >>= f) now l).result = .ok a ↔
      (attempt last.1 last.2).result = .ok (.done a) := by
  rw [← h.done_iff]
  show _ ↔ (s.poll timeout attempt now l).result = _
  cases hpoll : (s.poll timeout attempt now l).result with
  | error failure => simp [result_bind_of_error hpoll]
  | ok progress =>
    rw [result_bind_of_ok hpoll]
    cases progress with
    | done x =>
      rw [hdone]
      show Except.ok x = _ ↔ _
      simp
    | pending b =>
      obtain ⟨failure, hfail⟩ := hpending b
      rw [hfail]
      simp [Action.fail]

/-- Nothing goes over the connection after the last attempt. -/
theorem quiet
    (h : (s.poller timeout).Decides attempt ((s.poller timeout).deadline now) now l before last)
    (hf : ∀ progress, Quietly (f progress)) :
    Link.Quiet (attempt last.1 last.2).state ((s.poll timeout attempt >>= f) now l).state := by
  rw [← h.state]
  exact Quietly.after (a := s.poll timeout attempt) hf now l

end Poller.Decides
end Arbor

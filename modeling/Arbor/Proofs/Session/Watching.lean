/-
# Looking until enough is seen

A wait for several objects counts them again and again, a wait for a value looks at the object again
and again.  Both go on as long as what they see is not enough, and the last look decides
(`Decision`):

| the last look | the wait |
| --- | --- |
| fails | fails in the same way |
| sees enough | ends with what was seen |
| does not, and time is up | fails, and says what the last look saw |

A failure is never looked past, not even that the object is gone.  What earlier looks saw does not
matter: the number of objects that a wait reports is the last, not the greatest.  Over a connection
that passes the handshake every look makes one call for objects, and there is no call after the last
look (`Poller.Attempts.calls`).
-/

import Arbor.Proofs.Session.Attribute
import Arbor.Proofs.Session.Cardinality
import Arbor.Proofs.Session.Schedule

namespace Arbor

open Arbor.Action
open Poller (Attempts verdict starts_eq not_isPending_done not_isPending_error)

variable {σ α β : Type}

/-! ## The calls of a wait -/

/-- The call for objects of a query that is executed from an instant and a connection on, after a
handshake. -/
def Session.call (s : Session σ) (q : Query) (x : Nat × Link σ) : Call :=
  .state (x.1 + (Exchange.handshake s.remote s.options x.1 x.2).elapsed) q.text
    (Exchange.answer s.remote s.options q x.1 x.2)

/-- An attempt that executes a query and makes no other call. -/
def Executes (s : Session σ) (q : Query) (attempt : Exchange σ α) : Prop :=
  ∀ now l, Link.Quiet (Exchange.execute s.remote s.options q now l).state (attempt now l).state

section Calls

variable {s : Session σ} {q : Query} {attempt : Exchange σ α} {now : Nat} {l : Link σ}

theorem Session.executes_execute (s : Session σ) (q : Query) : Executes s q (s.execute q) :=
  s.quiet_execute q

theorem Executes.bind {f : α → Exchange σ β} (h : Executes s q attempt)
    (hf : ∀ x, Quietly (f x)) : Executes s q (attempt >>= f) :=
  fun now l => (h now l).trans (Quietly.after hf now l)

/-- After a handshake such an attempt makes one call, and no later one needs another handshake. -/
theorem Executes.calls (h : Executes s q attempt)
    (hopened : (Exchange.handshake s.remote s.options now l).result = .ok ()) :
    (attempt now l).state.calls =
        s.call q (now, l) :: (Exchange.handshake s.remote s.options now l).state.calls ∧
      ∀ next, Exchange.handshake s.remote s.options next (attempt now l).state =
        ⟨.ok (), 0, (attempt now l).state⟩ := by
  have hquiet := (Exchange.quiet_fetch hopened).trans <|
    (Exchange.quiet_execute s.remote s.options q now l).trans (h now l)
  exact ⟨hquiet.calls, fun next => Exchange.handshake_of_version
    (hquiet.version.trans (Exchange.version_of_handshake hopened)) next⟩

end Calls

/-- **Every attempt makes one call for objects**, and nothing else is called for after the
handshake. -/
theorem Poller.Attempts.calls {s : Session σ} {q : Query} {p : Poller}
    {attempt : Exchange σ (Progress β α)} {deadline : Option Nat} {x : Nat × Link σ}
    {made : List (Nat × Link σ)} (h : Attempts p attempt deadline x made)
    (hexecutes : Executes s q attempt)
    (hopened : (Exchange.handshake s.remote s.options x.1 x.2).result = .ok ()) :
    (p.runFrom attempt deadline x.1 x.2).state.calls =
      (made.map (s.call q)).reverse ++
        (Exchange.handshake s.remote s.options x.1 x.2).state.calls := by
  induction h with
  | @last x h =>
    rw [runFrom_of_last h, List.map_singleton, List.reverse_singleton]
    exact (hexecutes.calls hopened).1
  | @more x made hpending hlimit hrest ih =>
    obtain ⟨hcalls, hknown⟩ := hexecutes.calls hopened
    have hnext := ih (by rw [hknown])
    rw [hknown] at hnext
    rw [runFrom_of_lt hpending hlimit, state_later, List.map_cons, List.reverse_cons,
      List.append_assoc]
    exact hnext.trans (congrArg _ hcalls)

/-! ## The last look -/

/-- How a wait ends that looks with `look` until it has seen `enough`: `before` and `last` say when
and over which connection the looks start, `ended` is the end of the wait, and `late` is the failure
of a wait that runs out of time.  A wait whose deadline the clock cannot hold does not run out of
time; only the end of the clock is the end of it. -/
structure Decision (s : Session σ) (q : Query) (look : Exchange σ α) (enough : α → Prop)
    (late : α → Failure) (timeout : Duration) (now : Nat) (l : Link σ)
    (before : List (Nat × Link σ)) (last : Nat × Link σ) (ended : Ended Failure (Link σ) α) :
    Prop where
  goesOn : ∀ x ∈ before, ∃ a, (look x.1 x.2).result = .ok a ∧ ¬enough a
  failed : ∀ failure, (look last.1 last.2).result = .error failure →
    ended.result = .error failure
  satisfied : ∀ a, (look last.1 last.2).result = .ok a → enough a → ended.result = .ok a
  timeUp : now + timeout.nanos < clockEnd → ∀ a, (look last.1 last.2).result = .ok a →
    ¬enough a → ended.result = .error (late a) ∧ timeout.nanos ≤ ended.elapsed
  unending : clockEnd ≤ now + timeout.nanos → ∀ a, (look last.1 last.2).result = .ok a →
    ¬enough a → ended.result = .error .clockEnded
  calls : ended.state.calls = ((before ++ [last]).map (s.call q)).reverse ++
    (Exchange.handshake s.remote s.options now l).state.calls

namespace Session

section Poll

variable {s : Session σ} {q : Query} {timeout : Duration} {attempt : Exchange σ (Progress β α)}
  {f : Progress β α → Exchange σ α} {look : Exchange σ α} {enough : α → Prop}
  [DecidablePred enough] {seen : α → β} {now : Nat} {l : Link σ}

/-- What a wait makes of what its last attempt sees. -/
theorem result_wait_of_poll {deadline : Option Nat} {r : Except Failure α} {late : β → Failure}
    (hdone : ∀ a, f (.done a) = pure a) (hpending : ∀ b, f (.pending b) = Action.fail (late b))
    (hpoll : (s.poll timeout attempt now l).result =
      verdict deadline (r.map fun a => if enough a then .done a else .pending (seen a))) :
    ((s.poll timeout attempt >>= f) now l).result = r >>= fun a =>
      if enough a then .ok a
      else .error (if deadline.isSome then late (seen a) else .clockEnded) := by
  cases r with
  | error failure => exact result_bind_of_error hpoll
  | ok a =>
    by_cases henough : enough a
    · simp only [Except.map, if_pos henough] at hpoll
      rw [result_bind_of_ok (hpoll.trans (Poller.verdict_eq_done_iff.2 rfl)), hdone]
      exact (if_pos henough).symm
    · simp only [Except.map, if_neg henough] at hpoll
      refine Eq.trans ?_ (if_neg henough).symm
      cases deadline with
      | none => exact result_bind_of_error hpoll
      | some d =>
        rw [result_bind_of_ok hpoll, hpending]
        rfl

/-- What becomes of a wait when its attempts are looks. -/
theorem exists_decision (late : β → Failure)
    (hlook : ∀ now l, (attempt now l).result = (look now l).result.map fun a =>
      if enough a then .done a else .pending (seen a))
    (hexecutes : Executes s q attempt) (hdone : ∀ a, f (.done a) = pure a)
    (hpending : ∀ b, f (.pending b) = Action.fail (late b))
    (hopened : (Exchange.handshake s.remote s.options now l).result = .ok ()) :
    ∃ before last, (s.poller timeout).starts attempt now l = before ++ [last] ∧
      Decision s q look enough (fun a => late (seen a)) timeout now l before last
        ((s.poll timeout attempt >>= f) now l) := by
  have h := (s.poller timeout).attempts_starts attempt now l
  obtain ⟨before, last, hmade, hbefore, hlast, hresult, htime, -⟩ := h.exists_end
  rw [hlook] at hresult hlast
  have hwait := result_wait_of_poll hdone hpending hresult
  refine ⟨before, last, hmade, fun x hx => ?_, fun failure hfailure => ?_, fun a ha henough => ?_,
    fun hclock a ha henough => ?_, fun hclock a ha henough => ?_, ?_⟩
  · obtain ⟨b, hb⟩ := hbefore x hx
    rw [hlook, map_eq_ok_iff] at hb
    obtain ⟨a, ha, hb⟩ := hb
    refine ⟨a, ha, fun henough => ?_⟩
    rw [if_pos henough] at hb
    exact absurd hb (by simp)
  · rw [hwait, hfailure]
    rfl
  · rw [hwait, ha]
    exact if_pos henough
  · have hdeadline : (s.poller timeout).deadline now = some (now + timeout.nanos) :=
      Poller.deadline_of_lt hclock
    rw [hdeadline] at hwait hlast
    refine ⟨hwait.trans ?_, ?_⟩
    · rw [ha]
      exact if_neg henough
    · -- the last look came to nothing, so it ended at the deadline or after
      have hlimit := hlast ⟨seen a, by rw [ha]; exact congrArg _ (if_neg henough)⟩
      rw [← htime] at hlimit
      exact Nat.le_trans (Nat.le_of_add_le_add_left hlimit) (elapsed_le_bind _ f now l)
  · rw [hwait, ha, show (s.poller timeout).deadline now = none from Poller.deadline_of_le hclock]
    exact if_neg henough
  · have hquiet : ∀ progress, Quietly (f progress) := by
      intro progress
      cases progress with
      | done a => rw [hdone]; exact .ret a
      | pending b => rw [hpending]; exact .fail _
    rw [(Quietly.after hquiet now l).calls, ← hmade]
    exact h.calls hexecutes hopened

end Poll

theorem executes_tryMany (s : Session σ) (q : Query) (least : Nat) :
    Executes s q (s.tryMany q least) :=
  ((s.executes_execute q).bind fun _ => .ofExcept _).bind fun _ => .ret _

theorem result_tryMany (s : Session σ) (q : Query) (least : Nat) (now : Nat) (l : Link σ) :
    (s.tryMany q least now l).result = (s.selectMany q now l).result.map fun ps =>
      if least ≤ ps.length then .done ps else .pending ps.length := by
  refine (result_bind_of_ends rfl fun ps => Ends.ret _).trans ?_
  cases (s.selectMany q now l).result with
  | error failure => rfl
  | ok ps => rfl

end Session

theorem Proxy.executes_tryAttribute (s : Session σ) (p : Proxy) (name : String)
    (expected : Literal) : Executes s p.query (p.tryAttribute s name expected) :=
  ((s.executes_execute p.query).bind fun _ => .ofExcept _).bind fun _ => .ret _

/-- **The last look decides.**  Over a connection that passes the handshake, whatever the remote
side answers and for every timeout: a wait for several objects goes on while there are too few and a
wait for a value while the object has another, and both end as the first look that fails or sees
enough, or else, when time is up, with what the last look saw. -/
theorem Session.waits_decided (s : Session σ) {now : Nat} {l : Link σ}
    (hopened : (Exchange.handshake s.remote s.options now l).result = .ok ())
    (timeout : Duration) :
    (∀ q least, ∃ before last,
      (s.poller timeout).starts (s.tryMany q least) now l = before ++ [last] ∧
      Decision s q (s.selectMany q) (fun ps => least ≤ ps.length)
        (fun ps => .notFound q.display (.tooFew least ps.length)) timeout now l before last
        (s.waitSelectMany q least timeout now l)) ∧
    ∀ (p : Proxy) name expected, ∃ before last,
      (s.poller timeout).starts (p.tryAttribute s name expected) now l = before ++ [last] ∧
      Decision s p.query (p.refresh s) (fun fresh => fresh.node.satisfies name expected = true)
        (fun _ => .waitTimeout (s!"{name} of {p.path} to equal " ++ expected.shown) timeout)
        timeout now l before last (p.waitFor s name expected timeout now l) := by
  refine ⟨fun q least => ?_, fun p name expected => ?_⟩
  · exact exists_decision (fun found => .notFound q.display (.tooFew least found))
      (s.result_tryMany q least) (s.executes_tryMany q least) (fun _ => rfl) (fun _ => rfl) hopened
  · exact exists_decision
      (fun _ => .waitTimeout (s!"{name} of {p.path} to equal " ++ expected.shown) timeout)
      (Proxy.result_tryAttribute s p name expected) (p.executes_tryAttribute s name expected)
      (fun _ => rfl) (fun _ => rfl) hopened

/-! ## A remote side with a script -/

/-- A session with a remote side that answers with one reply after another. -/
def Session.scripted : Session (List (List Entry)) where
  remote := {
    version := Action.ret "1.4"
    state := fun _ _ replies => ⟨.ok (replies.headD []), 0, replies.tail⟩ }
  registry := .empty
  options := .default

/-- A connection over which there are two applications, then three, then one. -/
def Link.varying : Link (List (List Entry)) :=
  .start ([2, 3, 1].map fun count => List.replicate count (Entry.app 1 [.int 10, .int 10]))

/-- A connection over which the application is resized, but only after it was away. -/
def Link.resizing : Link (List (List Entry)) :=
  .start [[Entry.app 1 [.int 10, .int 20]], [], [Entry.app 1 [.int 10, .int 10]]]

open Session (scripted)
open Proxy (app)

/-- Four applications are never seen, and what is reported is the one of the last look, not the
three of the second.  Three are seen by the second look, and there is no third.  A wait for a size
does not look past the application being away. -/
theorem waits_scripted :
    (scripted.waitSelectMany .pseudoRoot 4 (.ofMillis 500) 0 .varying).result =
        .error (.notFound "/" (.tooFew 4 1)) ∧
      ((scripted.waitSelectMany .pseudoRoot 3 (.ofMillis 500) 0 .varying).result =
          .ok [app, app, app] ∧
        (scripted.waitSelectMany .pseudoRoot 3 (.ofMillis 500) 0 .varying).state.calls.length = 3) ∧
      (app.waitFor scripted "size" (.value (.size ⟨10, 10⟩)) (.ofMillis 500) 0 .resizing).result =
        .error (.notFound "/App[id=1]" .noMatch) := by
  have hvarying : (Exchange.handshake scripted.remote scripted.options 0 .varying).result =
      .ok () := rfl
  have hresizing : (Exchange.handshake scripted.remote scripted.options 0 .resizing).result =
      .ok () := rfl
  obtain ⟨hmany, -⟩ := scripted.waits_decided hvarying (.ofMillis 500)
  obtain ⟨-, hvalue⟩ := scripted.waits_decided hresizing (.ofMillis 500)
  refine ⟨?_, ?_, ?_⟩
  · obtain ⟨before, last, hstarts, h⟩ := hmany .pseudoRoot 4
    have hmade := hstarts.symm.trans (starts_eq (.more ⟨2, rfl⟩ (by decide)
      (.more ⟨3, rfl⟩ (by decide) (.last fun _ => by decide))))
    obtain rfl := Option.some.inj (List.getLast?_eq_some_iff.2 ⟨_, hmade.symm⟩)
    exact (h.timeUp (by decide) [app] rfl (by decide)).1
  · obtain ⟨before, last, hstarts, h⟩ := hmany .pseudoRoot 3
    have hmade := hstarts.symm.trans (starts_eq (.more ⟨2, rfl⟩ (by decide)
      (.last fun hpending => absurd hpending (not_isPending_done [app, app, app]))))
    have hcalls := h.calls
    rw [hmade] at hcalls
    obtain rfl := Option.some.inj (List.getLast?_eq_some_iff.2 ⟨_, hmade.symm⟩)
    exact ⟨h.satisfied [app, app, app] rfl (by decide), by rw [hcalls]; rfl⟩
  · obtain ⟨before, last, hstarts, h⟩ := hvalue app "size" (.value (.size ⟨10, 10⟩))
    have hmade := hstarts.symm.trans (starts_eq (.more ⟨(), rfl⟩ (by decide)
      (.last fun hpending => absurd hpending
        (not_isPending_error (.notFound "/App[id=1]" .noMatch)))))
    obtain rfl := Option.some.inj (List.getLast?_eq_some_iff.2 ⟨_, hmade.symm⟩)
    exact h.failed _ rfl

end Arbor

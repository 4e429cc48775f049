/-
# Waiting for one object

A `Wait` calls for objects again and again.  Where calls take no time, the call number `k` is made
`min (k * pause) timeout` after the start, and what it is answered depends on the remote side alone
(`Wait.answer`).  The outcome of that answer is what a selection would come to (`Wait.outcome`), and
the first outcome other than that there is no object ends the wait at once, whether it is an object
or a failure.  If there is none up to the deadline, time is up (`Wait.ended_of_outcomes`).

The step from one call to the next is `Wait.Ready.attempt`: it keeps the connection in step with the
remote side and with the record of calls.
-/

import Arbor.Proofs.Poller
import Arbor.Proofs.Session.Filtering
import Arbor.Proofs.Session.Operations
import Arbor.Proofs.Session.Outcome

namespace Arbor

open Arbor.Action
open Poller (IsPending)

variable {σ : Type}

/-! ## One attempt -/

/-- There is no object. -/
def IsNoMatch (r : Except Failure Proxy) : Prop := ∃ query, r = .error (.notFound query .noMatch)

/-- What an attempt makes of what a selection comes to. -/
def progressOf : Except Failure Proxy → Except Failure (Progress Unit Proxy)
  | .ok p => .ok (.done p)
  | .error failure => if failure.isNoMatch then .ok (.pending ()) else .error failure

theorem isNoMatch_iff {failure : Failure} :
    failure.isNoMatch = true ↔ IsNoMatch (.error failure) := by
  constructor
  · intro h
    unfold Failure.isNoMatch at h
    split at h
    · exact ⟨_, rfl⟩
    · exact absurd h (by simp)
  · rintro ⟨query, h⟩
    obtain rfl := Except.error.inj h
    rfl

/-- To find no object is the only thing that is not passed on. -/
theorem isPending_progressOf_iff {r : Except Failure Proxy} :
    IsPending (progressOf r) ↔ IsNoMatch r := by
  cases r with
  | ok p =>
    constructor
    · rintro ⟨_, h⟩
      exact absurd h (by simp [progressOf])
    · rintro ⟨_, h⟩
      exact absurd h (by simp)
  | error failure =>
    rw [← isNoMatch_iff, progressOf]
    split
    · next h => exact ⟨fun _ => h, fun _ => ⟨(), rfl⟩⟩
    · next h =>
      refine ⟨?_, fun hmatch => absurd hmatch h⟩
      rintro ⟨_, hpending⟩
      exact absurd hpending (by simp)

namespace Session

variable {s : Session σ}

theorem result_trySingle (s : Session σ) (q : Query) (now : Nat) (l : Link σ) :
    (s.trySingle q now l).result = progressOf (s.selectSingle q now l).result := by
  unfold trySingle
  rw [result_bind_of_ok (x := (s.selectSingle q now l).result) rfl]
  cases (s.selectSingle q now l).result with
  | ok p => rfl
  | error failure =>
    simp only [progressOf]
    split
    · rfl
    · rfl

theorem quiet_trySingle (s : Session σ) (q : Query) (now : Nat) (l : Link σ) :
    Link.Quiet (s.selectSingle q now l).state (s.trySingle q now l).state := by
  refine Quietly.after (a := (s.selectSingle q).caught) (fun result => ?_) now l
  split
  · exact .ret _
  · split
    · exact .ret _
    · exact .fail _

theorem instantly_trySingle (h : s.remote.Instant) (q : Query) : Instantly (s.trySingle q) := by
  refine .bind (instantly_selectSingle h q).caught fun result => ?_
  split
  · exact .ret _
  · split
    · exact .ret _
    · exact .fail _

/-- What a wait makes of the last attempt: there being no object, time is up. -/
theorem waitSelectSingle_of_poll {q : Query} {timeout : Duration} {now elapsed : Nat}
    {l l' : Link σ} {r : Except Failure Proxy}
    (h : s.poll timeout (s.trySingle q) now l = ⟨progressOf r, elapsed, l'⟩) :
    (¬IsNoMatch r → s.waitSelectSingle q timeout now l = ⟨r, elapsed, l'⟩) ∧
      (IsNoMatch r → s.waitSelectSingle q timeout now l =
        ⟨.error (.notFound q.display (.timedOut timeout)), elapsed, l'⟩) := by
  unfold waitSelectSingle
  constructor
  · intro hmatch
    cases r with
    | ok p =>
      rw [bind_of_ok h]
      rfl
    | error failure =>
      rw [progressOf, if_neg fun hno => hmatch (isNoMatch_iff.1 hno)] at h
      rw [bind_of_error h]
  · intro hno
    obtain ⟨query, rfl⟩ := hno
    rw [bind_of_ok h]
    rfl

end Session

/-! ## A wait -/

/-- A wait for one object: for which, how long, from when on, and over which connection. -/
structure Wait (σ : Type) where
  session : Session σ
  query : Query
  timeout : Duration
  start : Nat
  link : Link σ

namespace Wait

variable (w : Wait σ)

def poller : Poller := w.session.poller w.timeout

/-- The handshake. -/
def opened : Ended Failure (Link σ) Unit :=
  Exchange.handshake w.session.remote w.session.options w.start w.link

/-- When a call for objects is made.  Calls are numbered from 0. -/
def instant (k : Nat) : Nat := w.start + w.poller.offset k

/-- The state of the remote side before a call for objects, if the wait goes on until then. -/
def remoteAt : Nat → σ
  | 0 => w.opened.state.remote
  | k + 1 => (w.session.remote.state w.query.text (w.instant k) (remoteAt k)).state

/-- The answer to a call for objects. -/
def answer (k : Nat) : Except String (List Entry) :=
  (w.session.remote.state w.query.text (w.instant k) (w.remoteAt k)).result

/-- What a selection would come to by that answer. -/
def outcome (k : Nat) : Except Failure Proxy := w.session.outcome w.query (w.answer k)

/-- The calls after the handshake and `k` calls for objects, the latest first. -/
def calls : Nat → List Call
  | 0 => w.opened.state.calls
  | k + 1 => .state (w.instant k) w.query.text (w.answer k) :: calls k

/-- How the wait ends. -/
def ended : Ended Failure (Link σ) Proxy :=
  w.session.waitSelectSingle w.query w.timeout w.start w.link

/-- A connection before the attempt number `k`: the handshake succeeds, and leaves the remote side
and the record of calls as they are to be. -/
structure Ready (k : Nat) (l : Link σ) : Prop where
  result : (Exchange.handshake w.session.remote w.session.options (w.instant k) l).result = .ok ()
  remote : (Exchange.handshake w.session.remote w.session.options (w.instant k) l).state.remote =
    w.remoteAt k
  calls : (Exchange.handshake w.session.remote w.session.options (w.instant k) l).state.calls =
    w.calls k

variable {w}

theorem instant_zero : w.instant 0 = w.start := by
  rw [instant, Poller.offset_zero, Nat.add_zero]

theorem ready_zero (h : w.opened.result = .ok ()) : w.Ready 0 w.link := by
  have hopened : Exchange.handshake w.session.remote w.session.options (w.instant 0) w.link =
      w.opened := by
    rw [instant_zero]
    rfl
  exact ⟨hopened ▸ h, hopened ▸ rfl, hopened ▸ rfl⟩

theorem ready_of_version {k : Nat} {l : Link σ}
    (hversion : l.version = some w.session.options.expectedVersion)
    (hremote : l.remote = w.remoteAt k) (hcalls : l.calls = w.calls k) : w.Ready k l := by
  have hknown := Exchange.handshake_of_version (r := w.session.remote) hversion (w.instant k)
  exact ⟨by rw [hknown], by rw [hknown]; exact hremote, by rw [hknown]; exact hcalls⟩

/-- **One attempt.**  It comes to the outcome of its answer, adds one call for objects, and leaves
the connection ready for the next. -/
theorem Ready.attempt {k : Nat} {l : Link σ} (h : w.Ready k l)
    (hinstant : w.session.remote.Instant) :
    (w.session.selectSingle w.query (w.instant k) l).result = w.outcome k ∧
      (w.session.trySingle w.query (w.instant k) l).state.calls = w.calls (k + 1) ∧
      w.Ready (k + 1) (w.session.trySingle w.query (w.instant k) l).state := by
  have htime := Exchange.instantly_handshake hinstant w.session.options (w.instant k) l
  have hquiet := (Session.quiet_selectSingle (q := w.query) h.result).trans
    (w.session.quiet_trySingle w.query (w.instant k) l)
  rw [htime, Nat.add_zero] at hquiet
  have hcalls : (w.session.trySingle w.query (w.instant k) l).state.calls = w.calls (k + 1) := by
    refine hquiet.calls.trans ?_
    rw [Wait.calls, ← h.calls, answer, ← h.remote]
    rfl
  refine ⟨?_, hcalls, ready_of_version (hquiet.version.trans ?_) (hquiet.remote.trans ?_) hcalls⟩
  · rw [Session.result_selectSingle h.result, Exchange.answer, htime, Nat.add_zero, h.remote]
    rfl
  · exact Exchange.version_of_handshake h.result
  · rw [remoteAt, ← h.remote]
    rfl

/-- The connection before every attempt. -/
theorem ready_stateAt (hinstant : w.session.remote.Instant) (hopened : w.opened.result = .ok ())
    (k : Nat) :
    w.Ready k (w.poller.stateAt (w.session.trySingle w.query) w.start w.link k) := by
  induction k with
  | zero => exact ready_zero hopened
  | succ k ih => exact (ih.attempt hinstant).2.2

/-- The attempt that decides ends the wait. -/
theorem poll_eq (hinstant : w.session.remote.Instant)
    (hdeadline : w.start + w.timeout.nanos < clockEnd) (hopened : w.opened.result = .ok ())
    {k : Nat} (hlast : k ≤ w.poller.last) (hbefore : ∀ j < k, IsNoMatch (w.outcome j))
    (hstop : k = w.poller.last ∨ ¬IsNoMatch (w.outcome k)) :
    ∃ l', l'.calls = w.calls (k + 1) ∧
      w.session.poll w.timeout (w.session.trySingle w.query) w.start w.link =
        ⟨progressOf (w.outcome k), w.poller.offset k, l'⟩ := by
  have hattempt : ∀ j, (w.poller.attemptAt (w.session.trySingle w.query) w.start w.link j).result =
      progressOf (w.outcome j) := by
    intro j
    refine (w.session.result_trySingle _ _ _).trans (congrArg progressOf ?_)
    exact ((ready_stateAt hinstant hopened j).attempt hinstant).1
  refine ⟨_, ((ready_stateAt hinstant hopened k).attempt hinstant).2.1, ?_⟩
  rw [← hattempt k]
  refine Poller.run_of_instantly (p := w.poller) (Session.instantly_trySingle hinstant w.query)
    hdeadline hlast (fun j hj => ?_) (hstop.imp_right fun h => ?_)
  · rw [hattempt, isPending_progressOf_iff]
    exact hbefore j hj
  · rw [hattempt, isPending_progressOf_iff]
    exact h

/-- **The first outcome that is more than no object ends the wait.**  Over a remote side that
answers at once and passes the handshake, with a timeout that the clock can hold: a wait ends with
the first outcome other than that there is no object, at the time of its call and without another;
if there is none up to the deadline, the wait ends there, after the call made then, and time is up.
The outcomes are what selections come to by the same answers. -/
theorem ended_of_outcomes (w : Wait σ) (hinstant : w.session.remote.Instant)
    (hdeadline : w.start + w.timeout.nanos < clockEnd) (hopened : w.opened.result = .ok ()) :
    (∀ k ≤ w.poller.last, (∀ j < k, IsNoMatch (w.outcome j)) → ¬IsNoMatch (w.outcome k) →
        w.ended.result = w.outcome k ∧
          w.ended.elapsed = min (k * w.poller.pause) w.timeout.nanos ∧
          w.ended.state.calls = w.calls (k + 1)) ∧
      ((∀ k ≤ w.poller.last, IsNoMatch (w.outcome k)) →
        w.ended.result = .error (.notFound w.query.display (.timedOut w.timeout)) ∧
          w.ended.elapsed = w.timeout.nanos ∧
          w.ended.state.calls = w.calls (w.poller.last + 1)) ∧
      ∀ k l, l.version = some w.session.options.expectedVersion → l.remote = w.remoteAt k →
        (w.session.selectSingle w.query (w.instant k) l).result = w.outcome k := by
  refine ⟨fun k hlast hbefore hmatch => ?_, fun hall => ?_, fun k l hversion hremote => ?_⟩
  · obtain ⟨l', hcalls, hpoll⟩ :=
      poll_eq hinstant hdeadline hopened hlast hbefore (Or.inr hmatch)
    have hended : w.ended = ⟨w.outcome k, w.poller.offset k, l'⟩ :=
      (Session.waitSelectSingle_of_poll hpoll).1 hmatch
    rw [hended]
    exact ⟨rfl, rfl, hcalls⟩
  · obtain ⟨l', hcalls, hpoll⟩ := poll_eq hinstant hdeadline hopened (Nat.le_refl _)
      (fun j hj => hall j (Nat.le_of_lt hj)) (Or.inl rfl)
    have hended : w.ended =
        ⟨.error (.notFound w.query.display (.timedOut w.timeout)), w.poller.offset _, l'⟩ :=
      (Session.waitSelectSingle_of_poll hpoll).2 (hall _ (Nat.le_refl _))
    rw [hended]
    exact ⟨rfl, w.poller.offset_last, hcalls⟩
  · have hknown := Exchange.handshake_of_version (r := w.session.remote) hversion (w.instant k)
    have hresult : (Exchange.handshake w.session.remote w.session.options (w.instant k) l).result =
        .ok () := by rw [hknown]
    rw [Session.result_selectSingle hresult, Exchange.answer, hknown, Nat.add_zero, hremote]
    rfl

/-! ## A button that comes late -/

/-- A session with a remote side that has no button before a second has passed. -/
def late : Session Unit where
  remote := {
    version := Action.ret "1.4"
    state := fun _ now =>
      if now < 1000000000 then Action.ret [] now
      else Action.ret [Catalog.buttonEntry 5 3 "a"] now }
  registry := .empty
  options := .default

/-- A wait for the button. -/
def forButton (timeout : Duration) : Wait Unit where
  session := late
  query := ⟨[.child "Game" .empty, .descendant "Button" .empty], "/Game//Button", .empty⟩
  timeout := timeout
  start := 0
  link := Link.start ()

theorem instant_late : late.remote.Instant where
  version _ _ := rfl
  state query now s := by
    dsimp only [late]
    split
    · rfl
    · rfl

/-- With two seconds the fifth call finds the button, after one second.  With 600 milliseconds the
fourth call is the last, and time is up. -/
theorem ended_forButton :
    ((∃ p, (forButton (.ofMillis 2000)).ended.result = .ok p ∧ p.id = 5) ∧
        (forButton (.ofMillis 2000)).ended.elapsed = 1000000000 ∧
        ((forButton (.ofMillis 2000)).ended.state.calls.filterMap Call.query?).length = 5) ∧
      (forButton (.ofMillis 600)).ended.result =
          .error (.notFound "/Game//Button" (.timedOut (.ofMillis 600))) ∧
        (forButton (.ofMillis 600)).ended.elapsed = 600000000 ∧
        ((forButton (.ofMillis 600)).ended.state.calls.filterMap Call.query?).length = 4 := by
  have hlong := ended_of_outcomes (forButton (.ofMillis 2000)) instant_late (by decide) rfl
  have hshort := ended_of_outcomes (forButton (.ofMillis 600)) instant_late (by decide) rfl
  obtain ⟨p, hp, hid⟩ : ∃ p, (forButton (.ofMillis 2000)).outcome 4 = .ok p ∧ p.id = 5 :=
    ⟨_, rfl, rfl⟩
  have hfound : ¬IsNoMatch ((forButton (.ofMillis 2000)).outcome 4) := by
    rintro ⟨_, h⟩
    exact absurd (hp.symm.trans h) (by simp)
  constructor
  · obtain ⟨hresult, htime, hcalls⟩ := hlong.1 4 (by decide) (fun j hj => by
      have hcases : j = 0 ∨ j = 1 ∨ j = 2 ∨ j = 3 := by omega
      rcases hcases with rfl | rfl | rfl | rfl
      · exact ⟨_, rfl⟩
      · exact ⟨_, rfl⟩
      · exact ⟨_, rfl⟩
      · exact ⟨_, rfl⟩) hfound
    exact ⟨⟨p, hresult.trans hp, hid⟩, htime, by rw [hcalls]; rfl⟩
  · obtain ⟨hresult, htime, hcalls⟩ := hshort.2.1 fun k hk => by
      have hcases : k = 0 ∨ k = 1 ∨ k = 2 ∨ k = 3 := by
        have hlast : (forButton (.ofMillis 600)).poller.last = 3 := rfl
        omega
      rcases hcases with rfl | rfl | rfl | rfl
      · exact ⟨_, rfl⟩
      · exact ⟨_, rfl⟩
      · exact ⟨_, rfl⟩
      · exact ⟨_, rfl⟩
    exact ⟨hresult, htime, by rw [hcalls]; rfl⟩

end Wait
end Arbor

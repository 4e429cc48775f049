/-
# What a selection comes to

After a handshake, what a selection of one object comes to depends on the answer to its call and on
nothing else: `Session.outcome` says how (`result_selectSingle`).  Neither the time nor the
connection nor what was reported matters, and if calls take no time, the selection takes none
(`instantly_selectSingle`).
-/

import Arbor.Proofs.Session.Answer
import Arbor.Proofs.Session.Binding
import Arbor.Proofs.Session.Wire

namespace Arbor

open Arbor.Action
open Exchange (passes)

variable {σ : Type}

/-! ## Calls without delay -/

/-- A remote side that answers at once. -/
structure Remote.Instant (r : Remote σ) : Prop where
  version : Instantly r.version
  state : ∀ query, Instantly (r.state query)

namespace Exchange

variable {r : Remote σ}

theorem instantly_report (e : Event) : Instantly (report e : Exchange σ Unit) := .modify _

theorem instantly_handshake (h : r.Instant) (o : Options) : Instantly (handshake r o) := by
  have hlearn : Instantly (learnVersion r o) := by
    refine .bind .get fun l => ?_
    split
    · exact .ret _
    · refine .bind (fun now l => h.version now l.remote) fun version => ?_
      exact .bind (instantly_report _) fun _ => .bind (.modify _) fun _ => .ret version
  refine .bind hlearn fun version => ?_
  split
  · exact .ret ()
  · exact .fail _

theorem instantly_fetch (h : r.Instant) (o : Options) (q : Query) : Instantly (fetch r o q) := by
  refine .bind (instantly_handshake h o) fun _ => ?_
  refine .bind (fun now l => h.state q.text now l.remote) fun reply => ?_
  refine .bind (instantly_report _) fun _ => ?_
  split
  · exact .bind (instantly_report _) fun _ => .ret reply
  · exact .ret reply

theorem instantly_decodeAll (o : Options) (entries : List Entry) :
    Instantly (decodeAll o entries : Exchange σ (List Node)) := by
  induction entries with
  | nil => exact .ret []
  | cons e rest ih =>
    rw [decodeAll]
    split
    · exact .bind (.forM instantly_report _) fun _ => .bind ih fun _ => .ret _
    · split
      · exact .bind (instantly_report _) fun _ => ih
      · exact .fail _

theorem instantly_sift (q : Query) (nodes : List Node) :
    Instantly (sift q nodes : Exchange σ (List Node)) := by
  unfold sift
  split
  · exact .ret nodes
  · exact .bind (instantly_report _) fun _ => .ret _

theorem instantly_execute (h : r.Instant) (o : Options) (q : Query) :
    Instantly (execute r o q) :=
  .bind (instantly_fetch h o q) fun reply => .bind (instantly_decodeAll o reply) (instantly_sift q)

end Exchange

namespace Session

variable {s : Session σ}

theorem instantly_execute (h : s.remote.Instant) (q : Query) : Instantly (s.execute q) := by
  refine .bind (Exchange.instantly_execute h s.options q).caught fun result => ?_
  split
  · exact .ret _
  · exact .bind (Exchange.instantly_report _) fun _ => .fail _

/-- Over such a remote side a selection takes no time. -/
theorem instantly_selectSingle (h : s.remote.Instant) (q : Query) :
    Instantly (s.selectSingle q) :=
  .bind (instantly_execute h q) fun _ => .ofExcept _

end Session

/-! ## The record of calls -/

namespace Exchange

/-- After a handshake a query adds its call for objects, with the answer, to the record. -/
theorem calls_execute {r : Remote σ} {o : Options} {q : Query} {now : Nat} {l : Link σ}
    (h : (handshake r o now l).result = .ok ()) :
    ∃ time added, (execute r o q now l).state.calls =
      .state time q.text (answer r o q now l) :: (added ++ l.calls) := by
  obtain ⟨v, -, hwire⟩ := (handshake_cases r o now l).resolve_left fun ⟨cause, hcause, _⟩ =>
    absurd (h.symm.trans hcause) (by simp)
  obtain ⟨added, hadded⟩ := hwire.suffix
  refine ⟨now + (handshake r o now l).elapsed, added, ?_⟩
  rw [hadded]
  exact ((quiet_fetch h).trans (quiet_execute r o q now l)).calls

end Exchange

/-! ## Outcomes -/

namespace Session

/-- What a selection of one object comes to, by the answer. -/
def outcome (s : Session σ) (q : Query) (answer : Except String (List Entry)) :
    Except Failure Proxy := do
  let reply ← Remote.outcome answer
  let nodes ← Exchange.decoded s.options reply
  one? s.registry q (nodes.filter (passes q.clientFilters))

variable {s : Session σ} {q : Query} {now : Nat} {l : Link σ}

theorem result_execute (s : Session σ) (q : Query) (now : Nat) (l : Link σ) :
    (s.execute q now l).result = (Exchange.execute s.remote s.options q now l).result := by
  unfold execute
  rw [result_bind_of_ok (x := (Exchange.execute s.remote s.options q now l).result) rfl]
  cases (Exchange.execute s.remote s.options q now l).result with
  | ok nodes => rfl
  | error failure => rfl

theorem result_selectSingle_eq (s : Session σ) (q : Query) (now : Nat) (l : Link σ) :
    (s.selectSingle q now l).result = (s.execute q now l).result >>= one? s.registry q :=
  result_bind_of_ends rfl fun _ => Ends.ofExcept _

theorem result_selectMany_eq (s : Session σ) (q : Query) (now : Nat) (l : Link σ) :
    (s.selectMany q now l).result = (s.execute q now l).result >>= bindAll s.registry :=
  result_bind_of_ends rfl fun _ => Ends.ofExcept _

/-- An object that is selected is the only one that the query finds. -/
theorem result_selectSingle_eq_ok_iff {p : Proxy} :
    (s.selectSingle q now l).result = .ok p ↔
      ∃ nodes, (Exchange.execute s.remote s.options q now l).result = .ok nodes ∧
        one? s.registry q nodes = .ok p := by
  rw [result_selectSingle_eq, bind_eq_ok_iff, s.result_execute]

/-- **What a selection comes to is what it makes of the answer.** -/
theorem result_selectSingle (h : (Exchange.handshake s.remote s.options now l).result = .ok ()) :
    (s.selectSingle q now l).result =
      s.outcome q (Exchange.answer s.remote s.options q now l) := by
  rw [result_selectSingle_eq, result_execute, Exchange.result_execute_eq h, outcome]
  simp only [bind_assoc, pure_bind]

/-- What is reported of a failure goes over no wire. -/
theorem quiet_execute (s : Session σ) (q : Query) (now : Nat) (l : Link σ) :
    Link.Quiet (Exchange.execute s.remote s.options q now l).state (s.execute q now l).state := by
  refine Quietly.after (a := (Exchange.execute s.remote s.options q).caught)
    (fun result => ?_) now l
  split
  · exact .ret _
  · exact (Quietly.report _).bind fun _ => .fail _

/-- Its only call for objects is followed by nothing but events. -/
theorem quiet_selectSingle (h : (Exchange.handshake s.remote s.options now l).result = .ok ()) :
    Link.Quiet (s.remote.callState q.text
        (now + (Exchange.handshake s.remote s.options now l).elapsed)
        (Exchange.handshake s.remote s.options now l).state).state
      (s.selectSingle q now l).state :=
  (Exchange.quiet_fetch h).trans <| (Exchange.quiet_execute _ _ _ _ _).trans <|
    (s.quiet_execute q now l).trans (Quietly.after (fun _ => .ofExcept _) now l)

end Session
end Arbor

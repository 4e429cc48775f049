/-
# What a query makes of its answer

After a handshake there is one call for objects, and what the query comes to depends on the answer
to that call and on nothing else: the entries are decoded (`Exchange.decoded`), and the nodes that
pass what is filtered here are kept (`Exchange.result_execute_eq`).  What is reported on the way
changes no result.
-/

import Arbor.Proofs.Action
import Arbor.Proofs.Query.Filters
import Arbor.Proofs.Result
import Arbor.Session.Exchange

namespace Arbor
namespace Exchange

open Arbor.Action

variable {σ : Type}

theorem yields_report (e : Event) : Yields (report e : Exchange σ Unit) () := Yields.modify _

/-! ## Decoding and filtering -/

/-- The nodes that entries stand for, apart from what is reported. -/
def decoded (o : Options) : List Entry → Except Failure (List Node)
  | [] => .ok []
  | e :: rest =>
    match Node.decode e with
    | .ok n => do return n :: (← decoded o rest)
    | .error failure => if o.skipMalformedNodes then decoded o rest else .error failure

theorem ends_decodeAll (o : Options) (entries : List Entry) :
    Ends (decodeAll o entries : Exchange σ (List Node)) (decoded o entries) := by
  induction entries with
  | nil => exact .ret []
  | cons e rest ih =>
    rw [decodeAll, decoded]
    cases Node.decode e with
    | ok n =>
      have hevents : Ends (n.events.forM report : Exchange σ Unit) (.ok ()) :=
        Yields.forM yields_report _
      exact hevents.bind fun _ => ih.bind fun _ => .ret _
    | error failure =>
      show Ends (if _ then _ else _) (if _ then _ else _)
      split
      · exact Ends.bind (yields_report _) fun _ => ih
      · exact .fail failure

theorem passes_empty (n : Node) : passes .empty n = true := rfl

theorem yields_sift (q : Query) (nodes : List Node) :
    Yields (sift q nodes : Exchange σ (List Node)) (nodes.filter (passes q.clientFilters)) := by
  unfold sift
  split
  · next hempty =>
    rw [Filters.isEmpty_iff.1 hempty, List.filter_eq_self.2 fun n _ => passes_empty n]
    exact Yields.ret nodes
  · exact Yields.bind (yields_report _) (Yields.ret _)

/-! ## Queries -/

/-- The answer that a query gets after a handshake. -/
def answer (r : Remote σ) (o : Options) (q : Query) (now : Nat) (l : Link σ) :
    Except String (List Entry) :=
  (r.state q.text (now + (handshake r o now l).elapsed) (handshake r o now l).state.remote).result

variable {r : Remote σ} {o : Options} {q : Query} {now : Nat} {l : Link σ}

/-- The reply is what the remote side answers. -/
theorem result_fetch_eq (h : (handshake r o now l).result = .ok ()) :
    (fetch r o q now l).result = Remote.outcome (answer r o q now l) := by
  unfold fetch
  rw [result_bind_of_ok h]
  refine (result_bind_of_ends (r := Remote.outcome (answer r o q now l)) (g := fun reply =>
    .ok reply) rfl fun reply => ?_).trans (bind_pure _)
  refine Yields.bind (yields_report _) ?_
  split
  · exact Yields.bind (yields_report _) (Yields.ret reply)
  · exact Yields.ret reply

/-- **What a query comes to, by its answer.** -/
theorem result_execute_eq (h : (handshake r o now l).result = .ok ()) :
    (execute r o q now l).result = (do
      let reply ← Remote.outcome (answer r o q now l)
      let nodes ← decoded o reply
      return nodes.filter (passes q.clientFilters)) :=
  result_bind_of_ends (result_fetch_eq h) fun reply =>
    (ends_decodeAll o reply).bind (yields_sift q)

theorem result_execute_of_error {failure : Failure}
    (h : (handshake r o now l).result = .error failure) :
    (execute r o q now l).result = .error failure :=
  result_bind_of_error (result_bind_of_error h)

theorem outcome_eq_ok_iff {α : Type} {x : Except String α} {a : α} :
    Remote.outcome x = .ok a ↔ x = .ok a := by
  cases x with
  | error cause => simp [Remote.outcome]
  | ok b => simp [Remote.outcome]

/-- **What a query with a result tells of its answer**: there was a reply, its entries were decoded,
and the result is what was kept of them. -/
theorem result_execute_eq_ok_iff {nodes : List Node} :
    (execute r o q now l).result = .ok nodes ↔
      (handshake r o now l).result = .ok () ∧ ∃ reply listed, answer r o q now l = .ok reply ∧
        decoded o reply = .ok listed ∧ listed.filter (passes q.clientFilters) = nodes := by
  cases h : (handshake r o now l).result with
  | error failure => simp [result_execute_of_error h]
  | ok u =>
    rw [result_execute_eq h, bind_eq_ok_iff]
    constructor
    · rintro ⟨reply, hreply, hrest⟩
      obtain ⟨listed, hlisted, hkept⟩ := bind_eq_ok_iff.1 hrest
      exact ⟨rfl, reply, listed, outcome_eq_ok_iff.1 hreply, hlisted, Except.ok.inj hkept⟩
    · rintro ⟨-, reply, listed, hreply, hlisted, rfl⟩
      exact ⟨reply, outcome_eq_ok_iff.2 hreply, bind_eq_ok_iff.2 ⟨listed, hlisted, rfl⟩⟩

end Exchange
end Arbor

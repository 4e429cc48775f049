/-
# One object or several

A selection of one object and a selection of several make the same call.  They differ in what they
make of the nodes:

| nodes | one object | several |
| --- | --- | --- |
| none | no match | no proxy |
| one | what it is bound to | the same, as the only proxy |
| more | ambiguous, and how many there are | what they are bound to, node by node |

One object is counted before it is bound, so where there are more it does not matter whether they
could be; several are bound in their order, up to the first that is bound to nothing
(`Session.selections_of_execute`).
-/

import Arbor.Proofs.Session.Destroyed

namespace Arbor
namespace Session

open Arbor.Action

variable {σ : Type}

/-- **One object or several.**  Where a query comes to the same, as it does over the same answer, a
selection of one object has a proxy exactly if a selection of several has this proxy and no other.
A selection of one object fails for want of a node, and it fails over two nodes or more, with their
number and whether or not they could be bound.  A selection of several has exactly the proxies that
the nodes are bound to, in their order, and it fails over nodes exactly as the first of them that is
bound to nothing.  Both fail if the query does. -/
theorem selections_of_execute (s : Session σ) (q : Query) {now now' : Nat} {l l' : Link σ}
    (h : (s.execute q now l).result = (s.execute q now' l').result) :
    (∀ p, (s.selectSingle q now l).result = .ok p ↔ (s.selectMany q now' l').result = .ok [p]) ∧
    ((s.execute q now l).result = .ok [] →
      (s.selectSingle q now l).result = .error (.notFound q.display .noMatch)) ∧
    (∀ nodes, (s.execute q now l).result = .ok nodes → 2 ≤ nodes.length →
      (s.selectSingle q now l).result =
        .error (.notFound q.display (.ambiguous nodes.length))) ∧
    (∀ ps, (s.selectMany q now l).result = .ok ps ↔
      ∃ nodes, (s.execute q now l).result = .ok nodes ∧
        List.Forall₂ (Binds s.registry) nodes ps) ∧
    (∀ nodes, (s.execute q now l).result = .ok nodes → ∀ failure,
      (s.selectMany q now l).result = .error failure ↔
        ∃ before n after, nodes = before ++ n :: after ∧
          (∀ m ∈ before, ∃ p, Binds s.registry m p) ∧ Unbound s.registry n failure) ∧
    ∀ failure, (s.execute q now l).result = .error failure →
      (s.selectSingle q now l).result = .error failure ∧
        (s.selectMany q now l).result = .error failure := by
  refine ⟨fun p => ?_, fun hnodes => ?_, fun nodes hnodes hlength => ?_, fun ps => ?_,
    fun nodes hnodes failure => ?_, fun failure hfailure => ?_⟩
  · rw [result_selectSingle_eq, result_selectMany_eq, ← h, bind_eq_ok_iff, bind_eq_ok_iff]
    refine exists_congr fun nodes => and_congr_right fun _ => ?_
    exact one?_eq_ok_iff_bindAll
  · rw [result_selectSingle_eq, hnodes]
    rfl
  · rw [result_selectSingle_eq, hnodes]
    exact one?_of_two_le hlength
  · rw [result_selectMany_eq, bind_eq_ok_iff]
    exact exists_congr fun nodes => and_congr_right fun _ => bindAll_eq_ok_iff
  · rw [result_selectMany_eq, hnodes]
    exact bindAll_eq_error_iff
  · rw [result_selectSingle_eq, result_selectMany_eq, hfailure]
    exact ⟨rfl, rfl⟩

/-! ## Two applications -/

/-- Two classes for applications. -/
def rivals : Registry := ⟨[⟨"Main", "App", none⟩, ⟨"Other", "App", none⟩]⟩

/-- A session in which the same application is listed a number of times. -/
def listing (registry : Registry) (times : Nat) : Session Unit :=
  { answering .default (List.replicate times (Entry.app 1 [.int 10, .int 10])) with
    registry := registry }

/-- One application is selected alone or as one of several.  Two are ambiguous, though they have the
same id and, being claimed by two classes, could not even be bound: it is for this that a selection
of several fails. -/
theorem selections_listing :
    ((listing .empty 1).selectSingle .pseudoRoot 0 (Link.start ())).result = .ok Proxy.app ∧
      ((listing .empty 1).selectMany .pseudoRoot 5
        ((listing .empty 1).selectSingle .pseudoRoot 0 (Link.start ())).state).result =
          .ok [Proxy.app] ∧
      ((listing rivals 2).selectSingle .pseudoRoot 0 (Link.start ())).result =
        .error (.notFound "/" (.ambiguous 2)) ∧
      ((listing rivals 2).selectMany .pseudoRoot 0 (Link.start ())).result =
        .error (.ambiguousClass "/App" ["Main", "Other"]) := by
  have hone : ((listing .empty 1).execute .pseudoRoot 0 (Link.start ())).result =
      ((listing .empty 1).execute .pseudoRoot 5
        ((listing .empty 1).selectSingle .pseudoRoot 0 (Link.start ())).state).result := rfl
  have htwo : ((listing rivals 2).execute .pseudoRoot 0 (Link.start ())).result =
      .ok [Proxy.app.node, Proxy.app.node] := rfl
  have hagain : ((listing rivals 2).execute .pseudoRoot 0 (Link.start ())).result =
      ((listing rivals 2).execute .pseudoRoot 0 (Link.start ())).result := rfl
  obtain ⟨hsame, -⟩ := selections_of_execute (listing .empty 1) .pseudoRoot hone
  obtain ⟨-, -, hmany, -, hfails, -⟩ :=
    selections_of_execute (listing rivals 2) .pseudoRoot hagain
  have hsingle : ((listing .empty 1).selectSingle .pseudoRoot 0 (Link.start ())).result =
      .ok Proxy.app := rfl
  refine ⟨hsingle, (hsame _).1 hsingle, hmany _ htwo (by decide), (hfails _ htwo _).2 ?_⟩
  exact ⟨[], _, _, rfl, by simp, .noClass rfl⟩

end Session
end Arbor

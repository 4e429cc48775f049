/-
# What nodes are bound to

A selection binds the nodes that a query finds.  A node is bound to a proxy that has it, its class,
and its address (`Session.Binds`) or, if several classes claim it or its path is no address, to
nothing (`Session.Unbound`).  Several nodes are bound in their order, up to the first that is bound
to nothing (`Session.bindAll_eq_error_iff`); one object is what the only node is bound to
(`Session.one?_eq_ok_iff`).
-/

import Arbor.Proofs.Result
import Arbor.Session.Basic

namespace Arbor
namespace Session

/-! ## One node -/

/-- What a node is bound to: a proxy that has the node, its class, and its address. -/
structure Binds (registry : Registry) (n : Node) (p : Proxy) : Prop where
  node : p.node = n
  className : registry.resolve n = .ok p.className
  query : Query.ofPath n.path n.id = .ok p.query

/-- Why a node is bound to nothing: it has no class or, if it has one, no address. -/
inductive Unbound (registry : Registry) (n : Node) : Failure → Prop
  | noClass {failure : Failure} (h : registry.resolve n = .error failure) :
    Unbound registry n failure
  | noAddress {className : ProxyClass} {fault : Query.Fault}
    (hclass : registry.resolve n = .ok className) (h : Query.ofPath n.path n.id = .error fault) :
    Unbound registry n (.invalidQuery fault.message)

variable {registry : Registry} {n : Node} {nodes : List Node} {p : Proxy} {failure : Failure}

theorem queryOf_eq_ok_iff {α : Type} {x : Except Query.Fault α} {a : α} :
    queryOf x = .ok a ↔ x = .ok a := by
  cases x with
  | error fault => simp [queryOf]
  | ok b => simp [queryOf]

theorem queryOf_eq_error_iff {α : Type} {x : Except Query.Fault α} :
    queryOf x = .error failure ↔
      ∃ fault, x = .error fault ∧ failure = .invalidQuery fault.message := by
  cases x with
  | error fault => simp [queryOf, eq_comm]
  | ok b => simp [queryOf]

theorem bind_eq_ok_iff_binds : bind registry n = .ok p ↔ Binds registry n p := by
  rw [bind, bind_eq_ok_iff]
  constructor
  · rintro ⟨className, hclass, h⟩
    obtain ⟨query, hquery, h⟩ := bind_eq_ok_iff.1 h
    obtain rfl := pure_eq_ok_iff.1 h
    exact ⟨rfl, hclass, queryOf_eq_ok_iff.1 hquery⟩
  · rintro ⟨rfl, hclass, hquery⟩
    exact ⟨_, hclass, bind_eq_ok_iff.2 ⟨_, queryOf_eq_ok_iff.2 hquery, rfl⟩⟩

theorem bind_eq_error_iff_unbound :
    bind registry n = .error failure ↔ Unbound registry n failure := by
  rw [bind, bind_eq_error_iff]
  constructor
  · rintro (h | ⟨className, hclass, h⟩)
    · exact .noClass h
    · rcases bind_eq_error_iff.1 h with h | ⟨query, -, h⟩
      · obtain ⟨fault, hfault, rfl⟩ := queryOf_eq_error_iff.1 h
        exact .noAddress hclass hfault
      · exact absurd h (by simp [pure, Except.pure])
  · rintro (h | ⟨hclass, h⟩)
    · exact Or.inl h
    · exact Or.inr ⟨_, hclass, bind_eq_error_iff.2 (Or.inl (queryOf_eq_error_iff.2 ⟨_, h, rfl⟩))⟩

/-- A proxy has its node, and addresses it by its path and its id. -/
theorem of_bind_eq_ok (h : bind registry n = .ok p) :
    p.node = n ∧ Query.ofPath n.path n.id = .ok p.query :=
  have hbinds := bind_eq_ok_iff_binds.1 h
  ⟨hbinds.node, hbinds.query⟩

/-! ## The nodes of a selection -/

theorem bindAll_eq_mapM (registry : Registry) (nodes : List Node) :
    bindAll registry nodes = nodes.mapM (bind registry) := by
  induction nodes with
  | nil => rfl
  | cons n rest ih => rw [bindAll, List.mapM_cons, ih]

/-- Several nodes are bound node by node. -/
theorem bindAll_eq_ok_iff {ps : List Proxy} :
    bindAll registry nodes = .ok ps ↔ List.Forall₂ (Binds registry) nodes ps := by
  rw [bindAll_eq_mapM, mapM_eq_ok_iff]
  simp only [bind_eq_ok_iff_binds]

/-- They fail as the first that is bound to nothing. -/
theorem bindAll_eq_error_iff :
    bindAll registry nodes = .error failure ↔
      ∃ before n after, nodes = before ++ n :: after ∧
        (∀ m ∈ before, ∃ p, Binds registry m p) ∧ Unbound registry n failure := by
  rw [bindAll_eq_mapM, mapM_eq_error_iff]
  simp only [bind_eq_ok_iff_binds, bind_eq_error_iff_unbound]

/-- One object is what the only node is bound to. -/
theorem one?_eq_ok_iff {q : Query} :
    one? registry q nodes = .ok p ↔ ∃ n, nodes = [n] ∧ Binds registry n p := by
  unfold one?
  split
  · simp
  · simp [bind_eq_ok_iff_binds]
  · next hone =>
    constructor
    · intro h
      exact absurd h (by simp)
    · rintro ⟨n, rfl, -⟩
      exact absurd rfl (hone n)

/-- It is the only one of several. -/
theorem one?_eq_ok_iff_bindAll {q : Query} :
    one? registry q nodes = .ok p ↔ bindAll registry nodes = .ok [p] := by
  rw [one?_eq_ok_iff, bindAll_eq_ok_iff, List.forall₂_cons_right_iff]
  simp only [List.forall₂_nil_right_iff]
  constructor
  · rintro ⟨n, rfl, hbinds⟩
    exact ⟨n, [], hbinds, rfl, rfl⟩
  · rintro ⟨n, _, hbinds, rfl, rfl⟩
    exact ⟨n, rfl, hbinds⟩

theorem one?_of_two_le {q : Query} (h : 2 ≤ nodes.length) :
    one? registry q nodes = .error (.notFound q.display (.ambiguous nodes.length)) := by
  unfold one?
  split
  · exact absurd h (by simp)
  · exact absurd h (by simp)
  · rfl

/-- Where there is one object, there is one node. -/
theorem eq_of_one? {q : Query} (h : one? registry q nodes = .ok p) : nodes = [p.node] := by
  obtain ⟨n, rfl, hbinds⟩ := one?_eq_ok_iff.1 h
  rw [hbinds.node]

end Session
end Arbor

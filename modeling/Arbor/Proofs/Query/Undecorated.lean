/-
# Parents and roots with predicates

A parent and the root of the tree take no predicates (`Segment.TakesNone`), and the writer of
queries refuses those that have any (`predicates_eq_empty_of_write`).  Of the last segment the
writer only gets to see what is sent, though, so a predicate that is evaluated here passes there,
and nowhere else.  `undecorated_iff_of_reachable` says which queries have such a predicate and how
they come about.
-/

import Arbor.Proofs.Query.Reachable

namespace Arbor

/-- A step that takes no predicates: to a parent, or to the root of the tree. -/
def Segment.TakesNone (s : Segment) : Prop := s.isParent = true ∨ s.isTreeRoot = true

theorem Segment.takesNone_iff {s : Segment} : s.TakesNone ↔ s.name = parentName ∨ s.name = "" :=
  or_congr beq_iff_eq beq_iff_eq

theorem Segment.predicates_eq_empty_iff {s : Segment} :
    s.predicates = .empty ↔ s.serverPredicates = .empty ∧ s.clientPredicates = .empty := by
  constructor
  · intro h
    rw [serverPredicates, clientPredicates, h]
    exact ⟨rfl, rfl⟩
  · rintro ⟨hserver, hclient⟩
    rw [← congrArg predicates (sent_eq_self_iff.2 hclient)]
    exact hserver

namespace Query

/-! ## What the writer refuses -/

theorem Admissible.predicates_eq_empty {index : Nat} {s : Segment} (h : Admissible index s)
    (hs : s.TakesNone) : s.predicates = .empty := by
  rcases hs with hparent | hroot
  · exact (h.parent hparent).2.2
  · refine absurd ?_ h.name.1
    rw [show s.name = "" from eq_of_beq hroot]
    rfl

/-- The writer refuses parents and roots with predicates. -/
theorem predicates_eq_empty_of_write {segments : List Segment} {t : String}
    (h : write segments = .ok t) : ∀ s ∈ segments, s.TakesNone → s.predicates = .empty := by
  rcases write_eq_ok h with ⟨rfl, -⟩ | ⟨-, h⟩
  · intro s hmem _
    obtain rfl := List.mem_singleton.1 hmem
    rfl
  · intro s hmem hs
    obtain ⟨i, hadmissible⟩ := exists_admissible_of_writeFrom h s hmem
    exact hadmissible.predicates_eq_empty hs

/-! ## What passes -/

/-- A parent or a root with predicates can end a query exactly if it can without them and none of
them can be sent. -/
theorem exists_ofSegments_iff_of_takesNone {inner : List Segment} {last : Segment}
    (hlast : last.TakesNone) :
    (∃ q, ofSegments (inner ++ [last]) = .ok q) ↔
      last.serverPredicates = .empty ∧
        ∃ q, ofSegments (inner ++ [{ last with predicates := .empty }]) = .ok q := by
  rw [exists_ofSegments_append_iff, exists_ofSegments_append_iff]
  have hsent : last.serverPredicates = .empty → last.sent = { last with predicates := .empty } :=
    fun h => by rw [Segment.sent, h]
  constructor
  · rintro ⟨hinner, t, ht⟩
    have hserver := predicates_eq_empty_of_write ht last.sent (by simp) hlast
    rw [hsent hserver] at ht
    exact ⟨hserver, hinner, t, ht⟩
  · rintro ⟨hserver, hinner, t, ht⟩
    refine ⟨hinner, t, ?_⟩
    rw [hsent hserver]
    exact ht

/-- A query can go on to a parent with predicates exactly if it can go on to the parent and none of
them can be sent. -/
theorem exists_child_parentName_iff {q : Query} {filters : Filters} :
    (∃ r, q.child Segment.parentName filters = .ok r) ↔
      (∃ r, q.parent = .ok r) ∧ filters.filter isServerSide = .empty := by
  rw [child, parent, extend, extend]
  split
  · rw [exists_ofSegments_iff_of_takesNone (Or.inl rfl), and_comm]
    rfl
  · simp

/-- The root of the tree with predicates is a query exactly if none of them can be sent. -/
theorem exists_ofSegments_root_iff {filters : Filters} :
    (∃ r, ofSegments [.child "" filters] = .ok r) ↔ filters.filter isServerSide = .empty := by
  rw [← List.nil_append [Segment.child "" filters],
    exists_ofSegments_iff_of_takesNone (Or.inr rfl)]
  exact and_iff_left ⟨_, ofSegments_treeRoot⟩

/-- **When parents and roots have no predicates.**  None has one that can be sent, and none but the
last segment has any.  So a query has none at all exactly if, where its last segment is a parent or
a root, nothing is filtered here.  The other queries come from a parent or a root with predicates of
which none can be sent. -/
theorem undecorated_iff_of_reachable {q : Query} (h : q.Reachable) :
    ((∀ s ∈ q.segments, s.TakesNone → s.predicates = .empty) ↔
        (q.target = Segment.parentName ∨ q.target = "" → q.clientFilters = .empty)) ∧
      (∀ s ∈ q.segments, s.TakesNone → s.serverPredicates = .empty) ∧
      (∀ s ∈ q.segments.dropLast, s.TakesNone → s.predicates = .empty) ∧
      (∀ filters : Filters, (∃ r, q.child Segment.parentName filters = .ok r) ↔
        (∃ r, q.parent = .ok r) ∧ filters.filter isServerSide = .empty) ∧
      ∀ filters : Filters, (∃ r, ofSegments [.child "" filters] = .ok r) ↔
        filters.filter isServerSide = .empty := by
  obtain ⟨inner, last, t, hinner, ht, rfl⟩ := h.exists_parts
  have hwritten := predicates_eq_empty_of_write ht
  have hbefore : ∀ s ∈ inner, s.TakesNone → s.predicates = .empty :=
    fun s hs => hwritten s (by simp [hs])
  have hlast : last.TakesNone → last.serverPredicates = .empty := hwritten last.sent (by simp)
  have htarget : (⟨inner ++ [last], t, last.clientPredicates⟩ : Query).target = last.name := by
    rw [target, List.getLast?_concat]
  refine ⟨?_, fun s hs hnone => ?_, ?_, fun _ => exists_child_parentName_iff,
    fun _ => exists_ofSegments_root_iff⟩
  · rw [htarget, ← Segment.takesNone_iff]
    constructor
    · intro hall hnone
      exact (Segment.predicates_eq_empty_iff.1 (hall last (by simp) hnone)).2
    · intro hclient s hs hnone
      rcases List.mem_append.1 hs with hs | hs
      · exact hbefore s hs hnone
      · obtain rfl := List.mem_singleton.1 hs
        exact Segment.predicates_eq_empty_iff.2 ⟨hlast hnone, hclient hnone⟩
  · rcases List.mem_append.1 hs with hs | hs
    · exact (Segment.predicates_eq_empty_iff.1 (hbefore s hs hnone)).1
    · obtain rfl := List.mem_singleton.1 hs
      exact hlast hnone
  · rw [List.dropLast_concat]
    exact hbefore

/-- A parent with a predicate that cannot be sent, its integer being too large. -/
def largeParent : Query :=
  ⟨[.child "App" .empty, .child ".." (.ofList [("size", .int 1099511627776)])], "/App/..",
    .ofList [("size", .int 1099511627776)]⟩

theorem reachable_largeParent : largeParent.Reachable :=
  .child (.root (show root "App" = .ok ⟨[.child "App" .empty], "/App", .empty⟩ by rfl))
    (show child _ ".." (.ofList [("size", .int 1099511627776)]) = .ok _ by rfl)

/-- The parent of `largeParent` has a predicate; with one that can be sent there is no query. -/
theorem undecorated_largeParent :
    largeParent.Reachable ∧
      ¬(∀ s ∈ largeParent.segments, s.TakesNone → s.predicates = .empty) ∧
      ¬∃ r, child ⟨[.child "App" .empty], "/App", .empty⟩ ".." (.ofList [("size", .int 3)]) =
        .ok r := by
  have happ : (⟨[.child "App" .empty], "/App", .empty⟩ : Query).Reachable :=
    .root (show root "App" = .ok _ by rfl)
  refine ⟨reachable_largeParent, fun hall => ?_, fun hex => ?_⟩
  · exact absurd ((undecorated_iff_of_reachable reachable_largeParent).1.1 hall (Or.inl rfl))
      (by decide)
  · exact absurd (((undecorated_iff_of_reachable happ).2.2.2.1 _).1 hex).2 (by decide)

/-- Not every parent and every root of a query is without predicates, nor is a root with predicates
always refused. -/
theorem exists_decorated :
    ¬(∀ q : Query, q.Reachable → ∀ s ∈ q.segments, s.TakesNone → s.predicates = .empty) ∧
      ¬(∀ filters : Filters, filters ≠ .empty → ¬∃ r, ofSegments [.child "" filters] = .ok r) := by
  constructor
  · intro hall
    have hparent := hall _ reachable_largeParent
      (.child ".." (.ofList [("size", .int 1099511627776)])) (by decide) (Or.inl rfl)
    exact absurd hparent (by decide)
  · intro hall
    exact hall (.ofList [("size", .int 1099511627776)]) (by decide)
      (exists_ofSegments_root_iff.2 (by decide))

end Query
end Arbor

/-
# Queries that can be built

A query comes from segments, from one of the short forms, or from a text, and grows by steps
(`Reachable`).  However it was built, it is the query made of its segments
(`Reachable.ofSegments_segments`), so its text determines what the remote side is asked: the text
reads as the query whose last segment keeps the predicates for the remote side (`read_of_parts`).
-/

import Arbor.Proofs.Query.RoundTrip
import Mathlib.Data.List.ModifyLast

namespace Arbor

/-! ## Segments as the remote side sees them -/

namespace Segment

@[simp] theorem sent_sent (s : Segment) : s.sent.sent = s.sent := by
  rw [sent, serverPredicates, sent, serverPredicates, Filters.filter_filter]

@[simp] theorem clientPredicates_sent (s : Segment) : s.sent.clientPredicates = .empty :=
  Filters.filter_not_eq_empty_iff.2 fun _ hp => (List.mem_filter.1 hp).2

/-- A segment is sent as it is exactly if nothing of it is evaluated here. -/
theorem sent_eq_self_iff {s : Segment} : s.sent = s ↔ s.clientPredicates = .empty := by
  rw [clientPredicates, Filters.filter_not_eq_empty_iff, ← Filters.filter_eq_self_iff]
  constructor
  · intro h
    exact congrArg predicates h
  · intro h
    rw [sent, serverPredicates, h]

end Segment

namespace Query

/-- What it takes for segments to make a query: only the last of them has predicates that are
evaluated here, and what is sent has a text. -/
theorem ofSegments_append_eq_ok_iff {inner : List Segment} {last : Segment} {q : Query} :
    ofSegments (inner ++ [last]) = .ok q ↔ (∀ s ∈ inner, s.clientPredicates = .empty) ∧
      ∃ t, write (inner ++ [last.sent]) = .ok t ∧
        q = ⟨inner ++ [last], t, last.clientPredicates⟩ := by
  simp only [ofSegments, List.getLast?_concat, List.dropLast_concat]
  constructor
  · intro h
    split at h
    · exact absurd h (by simp)
    · next hfind =>
      obtain ⟨t, ht, h⟩ := bind_eq_ok_iff.1 h
      refine ⟨fun s hs => ?_, t, ht, (Except.ok.inj h).symm⟩
      have hclient := List.find?_eq_none.1 hfind s hs
      rw [Bool.not_eq_true, Bool.not_eq_false'] at hclient
      exact Filters.isEmpty_iff.1 hclient
  · rintro ⟨hinner, t, ht, rfl⟩
    have hfind : inner.find? (fun s => !s.clientPredicates.isEmpty) = none := by
      refine List.find?_eq_none.2 fun s hs => ?_
      rw [Bool.not_eq_true, Bool.not_eq_false']
      exact Filters.isEmpty_iff.2 (hinner s hs)
    rw [hfind]
    simp only [ht]
    rfl

/-- A query has a last segment. -/
theorem ofSegments_eq_ok_iff {segments : List Segment} {q : Query} :
    ofSegments segments = .ok q ↔
      ∃ inner last, segments = inner ++ [last] ∧ (∀ s ∈ inner, s.clientPredicates = .empty) ∧
        ∃ t, write (inner ++ [last.sent]) = .ok t ∧
          q = ⟨inner ++ [last], t, last.clientPredicates⟩ := by
  rcases List.eq_nil_or_concat segments with rfl | ⟨inner, last, rfl⟩
  · refine iff_of_false (by simp [ofSegments]) ?_
    rintro ⟨inner, last, h, -⟩
    exact absurd h (by simp)
  · rw [List.concat_eq_append, ofSegments_append_eq_ok_iff]
    constructor
    · rintro ⟨hinner, ht⟩
      exact ⟨inner, last, rfl, hinner, ht⟩
    · rintro ⟨inner', last', heq, hinner, ht⟩
      obtain ⟨rfl, hlast⟩ := List.append_inj' heq rfl
      obtain rfl := List.singleton_inj.1 hlast
      exact ⟨hinner, ht⟩

/-- Whether segments make a query, whatever the query is. -/
theorem exists_ofSegments_append_iff {inner : List Segment} {last : Segment} :
    (∃ q, ofSegments (inner ++ [last]) = .ok q) ↔
      (∀ s ∈ inner, s.clientPredicates = .empty) ∧ ∃ t, write (inner ++ [last.sent]) = .ok t := by
  simp only [ofSegments_append_eq_ok_iff]
  constructor
  · rintro ⟨q, hinner, t, ht, -⟩
    exact ⟨hinner, t, ht⟩
  · rintro ⟨hinner, t, ht⟩
    exact ⟨_, hinner, t, ht, rfl⟩

/-! ## Reachability -/

/-- The queries that can be built: from segments, the short forms and texts, and by any number of
steps from there. -/
inductive Reachable : Query → Prop
  | ofSegments {segments : List Segment} {q : Query} : Query.ofSegments segments = .ok q →
      Reachable q
  | root {name : String} {q : Query} : Query.root name = .ok q → Reachable q
  | pseudoRoot : Reachable Query.pseudoRoot
  | everywhere {name : String} {filters : Filters} {q : Query} :
      Query.everywhere name filters = .ok q → Reachable q
  | ofPath {path : String} {id : Int64} {q : Query} : Query.ofPath path id = .ok q → Reachable q
  | read {text : String} {q : Query} : Query.read text = .ok q → Reachable q
  | child {p q : Query} {name : String} {filters : Filters} : Reachable p →
      p.child name filters = .ok q → Reachable q
  | descendant {p q : Query} {name : String} {filters : Filters} : Reachable p →
      p.descendant name filters = .ok q → Reachable q
  | parent {p q : Query} : Reachable p → p.parent = .ok q → Reachable q

theorem segments_of_ofSegments {segments : List Segment} {q : Query}
    (h : ofSegments segments = .ok q) : q.segments = segments := by
  obtain ⟨inner, last, rfl, -, t, -, rfl⟩ := ofSegments_eq_ok_iff.1 h
  rfl

theorem exists_of_read_eq_ok {text : String} {q : Query} (h : read text = .ok q) :
    ∃ segments, ofSegments segments = .ok q := by
  unfold read at h
  split_ifs at h
  · obtain rfl := Except.ok.inj h
    exact ⟨_, ofSegments_treeRoot⟩
  · split at h
    · exact absurd h (by simp)
    · exact ⟨_, h⟩

theorem exists_of_extend_eq_ok {p q : Query} {s : Segment} (h : p.extend s = .ok q) :
    ∃ segments, ofSegments segments = .ok q := by
  unfold extend at h
  split at h
  · exact ⟨_, h⟩
  · exact absurd h (by simp)

theorem exists_of_ofPath_eq_ok {path : String} {id : Int64} {q : Query}
    (h : ofPath path id = .ok q) : ∃ segments, ofSegments segments = .ok q := by
  unfold ofPath at h
  split at h
  · exact ⟨_, h⟩
  · exact absurd h (by simp)

/-- **Every query is made of its segments**, whichever way it was built. -/
theorem Reachable.ofSegments_segments {q : Query} (h : q.Reachable) :
    Query.ofSegments q.segments = .ok q := by
  obtain ⟨segments, hq⟩ : ∃ segments, Query.ofSegments segments = .ok q := by
    cases h with
    | ofSegments h => exact ⟨_, h⟩
    | root h => exact ⟨_, h⟩
    | pseudoRoot => exact ⟨_, ofSegments_treeRoot⟩
    | everywhere h => exact ⟨_, h⟩
    | ofPath h => exact exists_of_ofPath_eq_ok h
    | read h => exact exists_of_read_eq_ok h
    | child _ h => exact exists_of_extend_eq_ok h
    | descendant _ h => exact exists_of_extend_eq_ok h
    | parent _ h => exact exists_of_extend_eq_ok h
  rw [segments_of_ofSegments hq]
  exact hq

/-- The parts of a query: the last segment stands apart, as it alone may have predicates that are
evaluated here. -/
theorem Reachable.exists_parts {q : Query} (h : q.Reachable) :
    ∃ inner last t, (∀ s ∈ inner, s.clientPredicates = .empty) ∧
      write (inner ++ [last.sent]) = .ok t ∧ q = ⟨inner ++ [last], t, last.clientPredicates⟩ := by
  obtain ⟨inner, last, -, hinner, t, ht, hq⟩ := ofSegments_eq_ok_iff.1 h.ofSegments_segments
  exact ⟨inner, last, t, hinner, ht, hq⟩

/-! ## What the text says -/

/-- The text of a query is read as the query whose last segment is the one that was sent. -/
theorem read_of_parts {inner : List Segment} {last : Segment} {t : String}
    (hinner : ∀ s ∈ inner, s.clientPredicates = .empty)
    (ht : write (inner ++ [last.sent]) = .ok t) :
    read t = .ok ⟨inner ++ [last.sent], t, .empty⟩ := by
  rw [read_of_write ht, ofSegments_eq_ok_iff]
  refine ⟨inner, last.sent, rfl, hinner, t, ?_, ?_⟩
  · rw [Segment.sent_sent, ht]
  · rw [Segment.clientPredicates_sent]

/-- A query whose predicates are all for the remote side is what its text is read as. -/
theorem Reachable.read_text_eq_self_iff {q : Query} (h : q.Reachable) :
    Query.read q.text = .ok q ↔ q.clientFilters = .empty := by
  obtain ⟨inner, last, t, hinner, ht, rfl⟩ := h.exists_parts
  rw [read_of_parts hinner ht]
  constructor
  · intro heq
    exact (congrArg clientFilters (Except.ok.inj heq)).symm
  · intro hclient
    have hclient : last.clientPredicates = .empty := hclient
    rw [Segment.sent_eq_self_iff.2 hclient, hclient]

/-- **The text of a query says what is asked**, whatever names, keys and texts are in it.  It is
read as the query with the same text whose last segment keeps, in order, the predicates for the
remote side and which filters nothing here; that is the query itself exactly if it filters nothing
here, and no other such query has the same text. -/
theorem read_text_of_reachable {q : Query} (h : q.Reachable) :
    (∃ q', read q.text = .ok q' ∧ q'.segments = q.segments.modifyLast Segment.sent ∧
        q'.text = q.text ∧ q'.clientFilters = .empty) ∧
      (read q.text = .ok q ↔ q.clientFilters = .empty) ∧
      ∀ r : Query, r.Reachable → q.clientFilters = .empty → r.clientFilters = .empty →
        r.text = q.text → r = q := by
  refine ⟨?_, h.read_text_eq_self_iff, fun r hr hq hclient htext => ?_⟩
  · obtain ⟨inner, last, t, hinner, ht, rfl⟩ := h.exists_parts
    exact ⟨_, read_of_parts hinner ht, (List.modifyLast_concat _ _ _).symm, rfl, rfl⟩
  · have hread := hr.read_text_eq_self_iff.2 hclient
    rw [htext, h.read_text_eq_self_iff.2 hq] at hread
    exact (Except.ok.inj hread).symm

/-- The buttons of a game with a text that has the characters of the grammar in it. -/
def quotedButtons : Query :=
  ⟨[.child "Game" .empty, .descendant "Button" (.ofList [("text", .text "a],/=\"b\"")])],
    "/Game//Button[text=\"a],/=\\\"b\\\"\"]", .empty⟩

/-- The same with a further predicate, whose key cannot be written. -/
def largeButtons : Query :=
  ⟨[.child "Game" .empty,
      .descendant "Button" (.ofList [("text", .text "a],/=\"b\""), ("größe", .int 3)])],
    "/Game//Button[text=\"a],/=\\\"b\\\"\"]", .ofList [("größe", .int 3)]⟩

theorem reachable_quotedButtons : quotedButtons.Reachable :=
  .descendant (.root (show root "Game" = .ok ⟨[.child "Game" .empty], "/Game", .empty⟩ by rfl))
    (show descendant _ "Button" (.ofList [("text", .text "a],/=\"b\"")]) = .ok _ by rfl)

theorem reachable_largeButtons : largeButtons.Reachable :=
  .descendant (.root (show root "Game" = .ok ⟨[.child "Game" .empty], "/Game", .empty⟩ by rfl))
    (show descendant _ "Button" (.ofList [("text", .text "a],/=\"b\""), ("größe", .int 3)]) = .ok _
      by rfl)

/-- What is filtered here is lost in the text, and nothing else: the text of `largeButtons` is read
as `quotedButtons`, and no other query that filters nothing here has this text. -/
theorem read_text_of_largeButtons :
    largeButtons.Reachable ∧ read largeButtons.text = .ok quotedButtons ∧
      read largeButtons.text ≠ .ok largeButtons ∧
      ∀ r : Query, r.Reachable → r.clientFilters = .empty → r.text = largeButtons.text →
        r = quotedButtons := by
  have hquoted := read_text_of_reachable reachable_quotedButtons
  have hlarge := read_text_of_reachable reachable_largeButtons
  refine ⟨reachable_largeButtons, hquoted.2.1.2 rfl, fun h => ?_,
    fun r hr hclient => hquoted.2.2 r hr rfl hclient⟩
  exact absurd (hlarge.2.1.1 h) (by decide)

end Query
end Arbor

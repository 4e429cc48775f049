/-
# Queries step by step

A query can be made of all its segments at once (`Query.ofSegments`), or begin with the first of
them and grow by one step after another (`Query.grow`).  At once, all segments are checked with a
rule of their own for the last; step by step, every segment is the last for a while.  Both come to
the same query or to none (`toOption_grow`):

- what is written of a list of segments is what is written of its beginning, and then the rest
  (`write_append_eq_ok`), so a beginning of segments that make a query makes one too
  (`exists_ofSegments_of_append`);
- a segment that filters something here can neither be extended nor stand before others.

A step adds a text of its own to that of the query, whatever the query is (`text_of_select`), and
whether a step can be taken does not depend on the query either, if the query is not the root of the
tree and filters nothing here (`Reachable.exists_extend_iff`).
-/

import Arbor.Proofs.Query.Reachable

namespace Arbor
namespace Query

/-! ## Writing a beginning and the rest -/

theorem writeFrom_append_eq_ok {index : Nat} {a b : List Segment} {t : String}
    (h : writeFrom index (a ++ b) = .ok t) :
    ∃ t₁ t₂, writeFrom index a = .ok t₁ ∧ writeFrom (index + a.length) b = .ok t₂ ∧
      t = t₁ ++ t₂ := by
  induction a generalizing index t with
  | nil => exact ⟨"", t, rfl, h, String.empty_append.symm⟩
  | cons s rest ih =>
    obtain ⟨first, others, hfirst, hothers, rfl⟩ := writeFrom_cons_eq_ok h
    obtain ⟨t₁, t₂, h₁, h₂, rfl⟩ := ih hothers
    refine ⟨first ++ t₁, t₂, writeFrom_cons_eq_ok_iff.2 ⟨first, t₁, hfirst, h₁, rfl⟩, ?_,
      String.append_assoc.symm⟩
    rw [List.length_cons, Nat.add_comm rest.length 1, ← Nat.add_assoc]
    exact h₂

theorem writeFrom_append {index : Nat} {a b : List Segment} {t₁ t₂ : String}
    (h₁ : writeFrom index a = .ok t₁) (h₂ : writeFrom (index + a.length) b = .ok t₂) :
    writeFrom index (a ++ b) = .ok (t₁ ++ t₂) := by
  induction a generalizing index t₁ with
  | nil =>
    obtain rfl := Except.ok.inj h₁
    rw [String.empty_append]
    exact h₂
  | cons s rest ih =>
    obtain ⟨first, others, hfirst, hothers, rfl⟩ := writeFrom_cons_eq_ok h₁
    rw [List.length_cons, Nat.add_comm rest.length 1, ← Nat.add_assoc] at h₂
    exact writeFrom_cons_eq_ok_iff.2 ⟨first, others ++ t₂, hfirst, ih hothers h₂,
      String.append_assoc⟩

/-- Segments that pass the checks one by one do not begin with the tree root. -/
theorem write_of_writeFrom {segments : List Segment} {t : String} (hne : segments ≠ [])
    (h : writeFrom 0 segments = .ok t) : write segments = .ok t := by
  obtain ⟨first, rest, rfl⟩ := List.exists_cons_of_ne_nil hne
  obtain ⟨_, _, hfirst, -, -⟩ := writeFrom_cons_eq_ok h
  have hname := (isName_of_checkSegment (writeSegment_eq_ok hfirst).1).1
  rw [write_eq_writeFrom fun hempty => hname (congrArg String.toList hempty)]
  exact h

/-- **A text of segments begins with that of the first of them.** -/
theorem write_append_eq_ok {a b : List Segment} {t : String} (ha : a ≠ [])
    (h : write (a ++ b) = .ok t) :
    ∃ t₁ t₂, write a = .ok t₁ ∧ writeFrom a.length b = .ok t₂ ∧ t = t₁ ++ t₂ := by
  rcases write_eq_ok h with ⟨hroot, rfl⟩ | ⟨-, h⟩
  · -- the tree root stands alone, so there is no rest
    obtain ⟨first, rest, rfl⟩ := List.exists_cons_of_ne_nil ha
    rw [List.cons_append, List.cons.injEq, List.append_eq_nil_iff] at hroot
    obtain ⟨rfl, rfl, rfl⟩ := hroot
    exact ⟨"/", "", rfl, rfl, rfl⟩
  · obtain ⟨t₁, t₂, h₁, h₂, rfl⟩ := writeFrom_append_eq_ok h
    rw [Nat.zero_add] at h₂
    exact ⟨t₁, t₂, write_of_writeFrom ha h₁, h₂, rfl⟩

/-- The other way round, apart from the root of the tree, beneath which nothing is written. -/
theorem write_append {a b : List Segment} {t₁ t₂ : String} (ha : a ≠ []) (hroot : a ≠ [.treeRoot])
    (h₁ : write a = .ok t₁) (h₂ : writeFrom a.length b = .ok t₂) :
    write (a ++ b) = .ok (t₁ ++ t₂) := by
  have h₁ := ((write_eq_ok h₁).resolve_left fun h => hroot h.1).2
  refine write_of_writeFrom (List.append_ne_nil_of_left_ne_nil ha b) (writeFrom_append h₁ ?_)
  rw [Nat.zero_add]
  exact h₂

/-! ## Beginnings of queries -/

/-- A beginning of segments that make a query makes one too. -/
theorem exists_ofSegments_of_append {a b : List Segment} {q : Query} (ha : a ≠ [])
    (h : ofSegments (a ++ b) = .ok q) : ∃ p, ofSegments a = .ok p := by
  rcases List.eq_nil_or_concat b with rfl | ⟨inner, last, rfl⟩
  · rw [List.append_nil] at h
    exact ⟨q, h⟩
  · rcases List.eq_nil_or_concat a with rfl | ⟨before, m, rfl⟩
    · exact absurd rfl ha
    · rw [List.concat_eq_append, List.concat_eq_append, ← List.append_assoc] at h
      obtain ⟨hclient, t, ht⟩ := exists_ofSegments_append_iff.1 ⟨q, h⟩
      -- what stands before others is sent as it is
      have hm : m.sent = m := Segment.sent_eq_self_iff.2 (hclient m (by simp))
      rw [List.append_assoc] at ht
      obtain ⟨t₁, -, h₁, -, -⟩ := write_append_eq_ok (by simp) ht
      rw [List.concat_eq_append, exists_ofSegments_append_iff, hm]
      exact ⟨fun s hs => hclient s (by simp [hs]), t₁, h₁⟩

/-- A query can be extended exactly if its segments and one more make a query. -/
theorem extend_eq_ok_iff {p q : Query} {s : Segment} (hp : p.Reachable) :
    p.extend s = .ok q ↔ ofSegments (p.segments ++ [s]) = .ok q := by
  rw [extend]
  split
  · rfl
  · next hclient =>
    refine iff_of_false (by simp) fun h => hclient ?_
    obtain ⟨inner, last, t, -, -, rfl⟩ := hp.exists_parts
    have hbefore := (exists_ofSegments_append_iff.1 ⟨q, h⟩).1
    exact Filters.isEmpty_iff.2 (hbefore last (by simp))

/-! ## Steps -/

/-- One more segment, by the step for its separator. -/
def select (q : Query) (s : Segment) : Except Fault Query :=
  if s.relative then q.descendant s.name s.predicates else q.child s.name s.predicates

theorem select_eq_extend (q : Query) (s : Segment) : q.select s = q.extend s := by
  obtain ⟨name, relative, predicates⟩ := s
  cases relative
  · rfl
  · rfl

/-- The query that begins with a segment and goes on with others, one at a time. -/
def grow (first : Segment) (rest : List Segment) : Except Fault Query := do
  rest.foldlM select (← ofSegments [first])

/-- From any query on, steps come to the query of all segments, or to none. -/
theorem toOption_foldlM_select {segments : List Segment} {p : Query}
    (hp : ofSegments segments = .ok p) (rest : List Segment) :
    (rest.foldlM select p).toOption = (ofSegments (segments ++ rest)).toOption := by
  induction rest generalizing segments p with
  | nil => rw [List.foldlM_nil, List.append_nil, hp]; rfl
  | cons s rest ih =>
    have hstep : ∀ q, p.select s = .ok q ↔ ofSegments (segments ++ [s]) = .ok q := by
      intro q
      rw [select_eq_extend, extend_eq_ok_iff (.ofSegments hp), segments_of_ofSegments hp]
    rw [List.foldlM_cons, ← List.singleton_append, ← List.append_assoc]
    cases hq : p.select s with
    | ok q => exact ih ((hstep q).1 hq)
    | error fault =>
      show none = _
      cases hall : ofSegments (segments ++ [s] ++ rest) with
      | error _ => rfl
      | ok r =>
        obtain ⟨q, h⟩ := exists_ofSegments_of_append (by simp) hall
        exact absurd ((hstep q).2 h) (by simp [hq])

/-- **Step by step or all at once.** -/
theorem toOption_grow (first : Segment) (rest : List Segment) :
    (grow first rest).toOption = (ofSegments (first :: rest)).toOption := by
  rw [grow]
  cases hfirst : ofSegments [first] with
  | ok p => exact toOption_foldlM_select hfirst rest
  | error fault =>
    show none = _
    cases hall : ofSegments (first :: rest) with
    | error _ => rfl
    | ok q =>
      obtain ⟨p, hp⟩ := exists_ofSegments_of_append (a := [first]) (by simp) hall
      exact absurd hp (by simp [hfirst])

/-! ## What a step adds -/

/-- What a segment adds to the text of a query: its separator, its name, and the predicates for the
remote side. -/
def addedText (s : Segment) : String := (writeSegment 1 s.sent).toOption.getD ""

/-- Only a first segment is checked otherwise, and more strictly; all other places are alike. -/
theorem checkSegment_of_ne_zero {index other : Nat} {s : Segment} (hother : other ≠ 0)
    (h : checkSegment index s = .ok ()) : checkSegment other s = .ok () := by
  rw [checkSegment_eq_ok_iff] at h ⊢
  exact {
    name := h.name
    parent := fun hparent => ⟨hother, (h.parent hparent).2⟩
    wildcard := h.wildcard }

theorem writeSegment_of_ne_zero {index other : Nat} {s : Segment} {t : String}
    (hother : other ≠ 0) (h : writeSegment index s = .ok t) : writeSegment other s = .ok t := by
  have hcheck := (writeSegment_eq_ok h).1
  rw [writeSegment, hcheck] at h
  rw [writeSegment, checkSegment_of_ne_zero hother hcheck]
  exact h

/-- What a step needs and what it adds: a query that filters nothing here, and what is sent of the
segment, as it is written behind another one. -/
theorem exists_text_of_extend {p q : Query} {s : Segment} (hp : p.Reachable)
    (h : p.extend s = .ok q) :
    p.clientFilters = .empty ∧ ∃ t, writeSegment 1 s.sent = .ok t ∧ q.text = p.text ++ t := by
  rw [extend_eq_ok_iff hp, ofSegments_append_eq_ok_iff] at h
  obtain ⟨inner, last, t₀, -, ht₀, rfl⟩ := hp.exists_parts
  obtain ⟨hclient, t, ht, rfl⟩ := h
  obtain ⟨t₁, t₂, h₁, h₂, rfl⟩ := write_append_eq_ok (by simp) ht
  obtain ⟨u, _, hu, hnil, rfl⟩ := writeFrom_cons_eq_ok h₂
  obtain rfl := Except.ok.inj hnil
  have hlast : last.clientPredicates = .empty := hclient last (by simp)
  rw [Segment.sent_eq_self_iff.2 hlast, h₁] at ht₀
  obtain rfl := Except.ok.inj ht₀
  refine ⟨hlast, u, writeSegment_of_ne_zero Nat.one_ne_zero hu, ?_⟩
  exact congrArg (t₁ ++ ·) String.append_empty

/-- **Whether a step can be taken does not depend on the query**, if it is not the root of the tree
and filters nothing here. -/
theorem Reachable.exists_extend_iff {q : Query} {s : Segment} (hq : q.Reachable)
    (hname : q.target ≠ "") :
    (∃ r, q.extend s = .ok r) ↔
      q.clientFilters = .empty ∧ ∃ t, writeSegment 1 s.sent = .ok t := by
  constructor
  · rintro ⟨r, hr⟩
    obtain ⟨hclient, t, ht, -⟩ := exists_text_of_extend hq hr
    exact ⟨hclient, t, ht⟩
  · simp only [extend_eq_ok_iff hq, exists_ofSegments_append_iff]
    obtain ⟨inner, last, t₀, hinner, ht₀, rfl⟩ := hq.exists_parts
    rintro ⟨hlast, u, hu⟩
    have hlast : last.clientPredicates = .empty := hlast
    rw [Segment.sent_eq_self_iff.2 hlast] at ht₀
    have hroot : inner ++ [last] ≠ [.treeRoot] := by
      intro h
      rw [target, h] at hname
      exact hname rfl
    have hstep : writeFrom (inner ++ [last]).length [s.sent] = .ok u := writeFrom_cons_eq_ok_iff.2
      ⟨u, "", writeSegment_of_ne_zero (by simp) hu, rfl, String.append_empty.symm⟩
    exact ⟨List.forall_mem_append.2 ⟨hinner, List.forall_mem_singleton.2 hlast⟩, t₀ ++ u,
      write_append (by simp) hroot ht₀ hstep⟩

/-- Behind the root object, whatever its type, it can be taken if it can be taken anywhere. -/
theorem exists_ofSegments_behind_root_iff {name : String} {r : Query} {s : Segment}
    (hname : name ≠ "") (hr : root name = .ok r) :
    (∃ q, ofSegments [.child name .empty, s] = .ok q) ↔ ∃ t, writeSegment 1 s.sent = .ok t := by
  have hone : ofSegments ([] ++ [Segment.child name .empty]) = .ok r := hr
  obtain ⟨-, t, -, rfl⟩ := ofSegments_append_eq_ok_iff.1 hone
  have hreachable := Reachable.root hr
  have hall := hreachable.exists_extend_iff (s := s) hname
  simp only [extend_eq_ok_iff hreachable] at hall
  exact hall.trans (and_iff_right rfl)

/-- **A step adds a text that depends on its segment alone.** -/
theorem text_of_select {p q : Query} {s : Segment} (hp : p.Reachable) (h : p.select s = .ok q) :
    q.text = p.text ++ addedText s := by
  rw [select_eq_extend] at h
  obtain ⟨-, t, ht, htext⟩ := exists_text_of_extend hp h
  rw [addedText, ht]
  exact htext

/-- **A query is its segments.**  Every query is what its segments make.  To begin with one segment
and to go on step by step comes to the same query as to take all segments at once, or to none if
they make none.  Every step adds a text to that of the query that depends on the step alone. -/
theorem made_of_segments :
    (∀ q : Query, q.Reachable → ofSegments q.segments = .ok q) ∧
      (∀ first rest, (grow first rest).toOption = (ofSegments (first :: rest)).toOption) ∧
      ∀ (p q : Query) (s : Segment), p.Reachable → p.select s = .ok q →
        q.text = p.text ++ addedText s :=
  ⟨fun _ hq => hq.ofSegments_segments, toOption_grow, fun _ _ _ => text_of_select⟩

/-- The step to buttons with a text and a size, of which only the text can be sent. -/
def sizedButtons : Segment :=
  .descendant "Button" (.ofList [("text", .text "a],/=\"b\""), ("größe", .int 3)])

/-- The buttons of a game, step by step.  The step to them adds the predicate that can be sent.  The
other one is left, so no step leads on to labels, nor do all three segments at once make a query. -/
theorem made_of_sizedButtons :
    ofSegments pseudoRoot.segments = .ok pseudoRoot ∧
      grow (.child "Game" .empty) [sizedButtons] = .ok largeButtons ∧
      largeButtons.text = "/Game" ++ addedText sizedButtons ∧
      (grow (.child "Game" .empty) [sizedButtons, .child "Label" .empty]).toOption = none := by
  obtain ⟨hsegments, hgrow, htext⟩ := made_of_segments
  have hgame : (⟨[.child "Game" .empty], "/Game", .empty⟩ : Query).Reachable :=
    .root (show root "Game" = .ok _ by rfl)
  refine ⟨hsegments _ .pseudoRoot, toOption_eq_some_iff.1 ?_, ?_, ?_⟩
  · rw [hgrow]
    rfl
  · exact htext _ _ _ hgame (by rfl)
  · rw [hgrow]
    rfl

end Query
end Arbor

/-
# What the writer of queries writes

Inversions of the writer: from the fact that a predicate, a segment or a list of segments has a
text, what the text is made of and which checks were passed.  `writePredicate_eq_ok_iff`,
`writePredicates_cons_eq_ok`, `writeSegment_eq_ok`, `writeFrom_cons_eq_ok` and `write_eq_ok` are all
that later proofs need of `Query.write`.  The other way round, a segment has a text if it passes the
checks and its predicates have one (`checkSegment_eq_ok_iff`, `writeSegment_eq_ok_iff`).

From them follows that what is written consists of spellings of the segments
(`exists_writes_of_write`), whose names and keys are free of the characters at which the reader
stops (`Admissible.name`, `of_isServerKey`).
-/

import Arbor.Proofs.Query.Filters
import Arbor.Proofs.Query.Grammar
import Arbor.Proofs.Result

namespace Arbor

/-! ## Keys -/

/-- A key that can be written is not empty and has no equals sign. -/
theorem of_isServerKey {key : String} (h : isServerKey key = true) :
    key.toList ≠ [] ∧ ∀ c ∈ key.toList, c ≠ '=' := by
  obtain ⟨hne, hchars⟩ := (isServerKey_iff.1 h).chars
  refine ⟨hne, fun c hc => ?_⟩
  rintro rfl
  exact absurd (hchars '=' hc) (by decide)

namespace Query

/-! ## Predicates -/

/-- A predicate has a text exactly if the remote side can evaluate it. -/
theorem writePredicate_eq_ok_iff {name t : String} {p : String × Literal} :
    writePredicate name p = .ok t ↔
      isServerSide p.1 p.2 = true ∧ ∃ literal, p.2.write = .ok literal ∧
        t = p.1 ++ "=" ++ literal := by
  unfold writePredicate isServerSide
  constructor
  · intro h
    split at h
    · next hp =>
      split at h
      · next literal hl => exact ⟨hp, literal, hl, (Except.ok.inj h).symm⟩
      · exact absurd h (by simp)
    · exact absurd h (by simp)
  · rintro ⟨hp, literal, hl, rfl⟩
    rw [if_pos hp, hl]

theorem writePredicates_cons_eq_ok {name t : String} {p q : String × Literal}
    {rest : List (String × Literal)} (h : writePredicates name (p :: q :: rest) = .ok t) :
    ∃ first others, writePredicate name p = .ok first ∧
      writePredicates name (q :: rest) = .ok others ∧ t = first ++ "," ++ others := by
  rw [writePredicates.eq_3 _ _ _ (List.cons_ne_nil q rest)] at h
  obtain ⟨first, hfirst, h⟩ := bind_eq_ok_iff.1 h
  obtain ⟨others, hothers, h⟩ := bind_eq_ok_iff.1 h
  exact ⟨first, others, hfirst, hothers, (Except.ok.inj h).symm⟩

/-! ## Segments -/

/-- What the checks of a segment with a given index leave. -/
structure Admissible (index : Nat) (s : Segment) : Prop where
  name : IsName s.name.toList
  /-- A parent comes after something, by one slash, and has no predicates. -/
  parent : s.isParent = true → index ≠ 0 ∧ s.relative = false ∧ s.predicates = .empty
  /-- A wildcard after two slashes has predicates. -/
  wildcard : s.isWildcard = true → s.relative = true → s.predicates ≠ .empty

theorem admissible_of_checkSegment {index : Nat} {s : Segment}
    (h : checkSegment index s = .ok ()) : Admissible index s where
  name := isName_of_checkSegment h
  parent hparent := by
    unfold checkSegment at h
    split_ifs at h with hroot hfirst hrelative hpredicates
    rw [Bool.not_eq_true, Bool.not_eq_false'] at hpredicates
    exact ⟨hfirst, Bool.eq_false_iff.2 hrelative, Filters.isEmpty_iff.1 hpredicates⟩
  wildcard hwild hrelative hempty := by
    have hparent : ¬s.isParent = true := by
      rw [Segment.isParent, show s.name = Segment.wildcard from eq_of_beq hwild]
      decide
    unfold checkSegment at h
    rw [if_neg hparent, if_pos hwild, hrelative, Filters.isEmpty_iff.2 hempty] at h
    split at h
    · exact absurd h (by simp)
    · exact absurd h (by simp)

/-- The checks leave nothing else out. -/
theorem checkSegment_eq_ok_iff {index : Nat} {s : Segment} :
    checkSegment index s = .ok () ↔ Admissible index s := by
  refine ⟨admissible_of_checkSegment, fun h => ?_⟩
  have hroot : ¬s.isTreeRoot = true := by
    intro hroot
    have hname := h.name.1
    rw [show s.name = "" from eq_of_beq hroot] at hname
    exact hname rfl
  unfold checkSegment
  rw [if_neg hroot]
  by_cases hparent : s.isParent = true
  · obtain ⟨hindex, hrelative, hpredicates⟩ := h.parent hparent
    rw [if_pos hparent, if_neg hindex, hrelative, hpredicates]
    rfl
  · rw [if_neg hparent]
    by_cases hwild : s.isWildcard = true
    · rw [if_pos hwild, if_neg]
      rw [Bool.and_eq_true, not_and]
      exact fun hrelative hempty => h.wildcard hwild hrelative (Filters.isEmpty_iff.1 hempty)
    · rw [if_neg hwild]
      exact checkName_of_isName h.name

/-- A segment with a text has passed the checks, and the text is its separator, its name, and in
brackets its predicates, if there are any. -/
theorem writeSegment_eq_ok {index : Nat} {s : Segment} {t : String}
    (h : writeSegment index s = .ok t) :
    checkSegment index s = .ok () ∧
      ((s.predicates.toList = [] ∧ t = separator s.relative ++ s.name) ∨
        (s.predicates.toList ≠ [] ∧ ∃ predicates,
          writePredicates s.name s.predicates.toList = .ok predicates ∧
            t = separator s.relative ++ s.name ++ ("[" ++ predicates ++ "]"))) := by
  unfold writeSegment at h
  obtain ⟨⟨⟩, hcheck, h⟩ := bind_eq_ok_iff.1 h
  obtain ⟨list, hlist, h⟩ := bind_eq_ok_iff.1 h
  obtain rfl := Except.ok.inj h
  refine ⟨hcheck, ?_⟩
  unfold writeList at hlist
  split at hlist
  · next hempty =>
    obtain rfl := Except.ok.inj hlist
    exact Or.inl ⟨List.isEmpty_iff.1 hempty, String.append_empty⟩
  · next hne =>
    obtain ⟨predicates, hpredicates, hlist⟩ := bind_eq_ok_iff.1 hlist
    obtain rfl := Except.ok.inj hlist
    exact Or.inr ⟨fun hnil => hne (List.isEmpty_iff.2 hnil), predicates, hpredicates, rfl⟩

/-- By the text of its predicates. -/
theorem writeSegment_eq_ok_iff {index : Nat} {s : Segment} {list t : String}
    (hlist : writeList s = .ok list) :
    writeSegment index s = .ok t ↔
      Admissible index s ∧ t = separator s.relative ++ s.name ++ list := by
  rw [← checkSegment_eq_ok_iff, writeSegment, hlist, bind_eq_ok_iff]
  constructor
  · rintro ⟨⟨⟩, hcheck, h⟩
    exact ⟨hcheck, (Except.ok.inj h).symm⟩
  · rintro ⟨hcheck, rfl⟩
    exact ⟨(), hcheck, rfl⟩

/-! ## Lists of segments -/

theorem writeFrom_cons_eq_ok {index : Nat} {s : Segment} {rest : List Segment} {t : String}
    (h : writeFrom index (s :: rest) = .ok t) :
    ∃ first others, writeSegment index s = .ok first ∧ writeFrom (index + 1) rest = .ok others ∧
      t = first ++ others := by
  unfold writeFrom at h
  obtain ⟨first, hfirst, h⟩ := bind_eq_ok_iff.1 h
  obtain ⟨others, hothers, h⟩ := bind_eq_ok_iff.1 h
  exact ⟨first, others, hfirst, hothers, (Except.ok.inj h).symm⟩

theorem writeFrom_cons_eq_ok_iff {index : Nat} {s : Segment} {rest : List Segment} {t : String} :
    writeFrom index (s :: rest) = .ok t ↔
      ∃ first others, writeSegment index s = .ok first ∧ writeFrom (index + 1) rest = .ok others ∧
        t = first ++ others := by
  refine ⟨writeFrom_cons_eq_ok, ?_⟩
  rintro ⟨first, others, hfirst, hothers, rfl⟩
  rw [writeFrom, hfirst, hothers]
  rfl

/-- All segments that are written have passed the checks. -/
theorem exists_admissible_of_writeFrom {index : Nat} {segments : List Segment} {t : String}
    (h : writeFrom index segments = .ok t) : ∀ s ∈ segments, ∃ i, Admissible i s := by
  induction segments generalizing index t with
  | nil => simp
  | cons first rest ih =>
    obtain ⟨_, _, hfirst, hrest, -⟩ := writeFrom_cons_eq_ok h
    exact List.forall_mem_cons.2
      ⟨⟨index, admissible_of_checkSegment (writeSegment_eq_ok hfirst).1⟩, ih hrest⟩

/-- Only the tree root alone, and segments that pass the checks one by one, have a text. -/
theorem write_eq_ok {segments : List Segment} {t : String} (h : write segments = .ok t) :
    (segments = [.treeRoot] ∧ t = "/") ∨ (segments ≠ [] ∧ writeFrom 0 segments = .ok t) := by
  unfold write at h
  split at h
  · exact absurd h (by simp)
  · next first rest =>
    split_ifs at h with hroot hdecorated hrest
    · rw [Bool.or_eq_true, not_or, Bool.not_eq_true, Bool.not_eq_true, Bool.not_eq_false']
        at hdecorated
      rw [Bool.not_eq_true, Bool.not_eq_false', List.isEmpty_iff] at hrest
      have hfirst : first = .treeRoot := by
        obtain ⟨name, relative, predicates⟩ := first
        obtain rfl : name = "" := eq_of_beq hroot
        obtain rfl : relative = false := hdecorated.1
        obtain rfl : predicates = .empty := Filters.isEmpty_iff.1 hdecorated.2
        rfl
      rw [hfirst, hrest]
      exact Or.inl ⟨rfl, (Except.ok.inj h).symm⟩
    · exact Or.inr ⟨List.cons_ne_nil _ _, h⟩

/-- Segments of which the first has a name are no root of the tree. -/
theorem write_eq_writeFrom {first : Segment} {rest : List Segment} (h : first.name ≠ "") :
    write (first :: rest) = writeFrom 0 (first :: rest) := by
  have hroot : ¬first.isTreeRoot = true := mt eq_of_beq h
  rw [write, if_neg hroot]

/-! ## What is written, as it stands in the text -/

theorem exists_writes_of_writePredicates {name t : String} {es : List (String × Literal)}
    (hne : es ≠ []) (h : writePredicates name es = .ok t) :
    ∃ ps, List.Forall₂ WritesPredicate ps es ∧
      t.toList = [','].intercalate (ps.map Spelling.predicateChars) := by
  -- the first predicate, whether or not others follow
  have hone : ∀ {e : String × Literal} {u : String}, writePredicate name e = .ok u →
      ∃ p, WritesPredicate p e ∧ u.toList = Spelling.predicateChars p := by
    intro e u hu
    obtain ⟨hside, literal, hliteral, rfl⟩ := writePredicate_eq_ok_iff.1 hu
    refine ⟨(e.1.toList, literal.toList), ⟨rfl, hside, ?_⟩, by simp [Spelling.predicateChars]⟩
    rw [String.ofList_toList]
    exact hliteral
  induction es generalizing t with
  | nil => exact absurd rfl hne
  | cons e rest ih =>
    cases rest with
    | nil =>
      obtain ⟨p, hp, htext⟩ := hone h
      exact ⟨[p], .cons hp .nil, by simpa using htext⟩
    | cons e' rest =>
      obtain ⟨first, others, hfirst, hothers, rfl⟩ := writePredicates_cons_eq_ok h
      obtain ⟨p, hp, htext⟩ := hone hfirst
      obtain ⟨ps, hps, hrest⟩ := ih (List.cons_ne_nil _ _) hothers
      obtain ⟨q, qs, hq, hqs, rfl⟩ := List.forall₂_cons_right_iff.1 hps
      refine ⟨p :: q :: qs, .cons hp (.cons hq hqs), ?_⟩
      rw [List.map_cons, List.map_cons, List.intercalate_cons_cons, ← List.map_cons, ← hrest]
      simp [htext]

theorem exists_writes_of_writeSegment {index : Nat} {s : Segment} {t : String}
    (h : writeSegment index s = .ok t) : ∃ sp : Spelling, sp.Writes s ∧ t.toList = sp.chars := by
  obtain ⟨-, ⟨hnil, rfl⟩ | ⟨hsome, predicates, hwrite, rfl⟩⟩ := writeSegment_eq_ok h
  · refine ⟨⟨s.relative, s.name.toList, []⟩, ⟨rfl, rfl, ?_⟩, by simp [Spelling.chars]⟩
    rw [hnil]
    exact .nil
  · obtain ⟨ps, hps, htext⟩ := exists_writes_of_writePredicates hsome hwrite
    have hne : ¬ps.isEmpty = true := by
      rw [List.isEmpty_iff]
      rintro rfl
      exact hsome (List.forall₂_nil_left_iff.1 hps)
    refine ⟨⟨s.relative, s.name.toList, ps⟩, ⟨rfl, rfl, hps⟩, ?_⟩
    simp [Spelling.chars, Spelling.listChars, hne, htext]

theorem exists_writes_of_writeFrom {index : Nat} {segments : List Segment} {t : String}
    (h : writeFrom index segments = .ok t) :
    ∃ spellings, List.Forall₂ Spelling.Writes spellings segments ∧
      t.toList = spellings.flatMap Spelling.chars := by
  induction segments generalizing index t with
  | nil =>
    obtain rfl := Except.ok.inj h
    exact ⟨[], .nil, rfl⟩
  | cons s rest ih =>
    obtain ⟨first, others, hfirst, hothers, rfl⟩ := writeFrom_cons_eq_ok h
    obtain ⟨sp, hsp, htext⟩ := exists_writes_of_writeSegment hfirst
    obtain ⟨spellings, hspellings, hrest⟩ := ih hothers
    refine ⟨sp :: spellings, .cons hsp hspellings, ?_⟩
    rw [String.toList_append, List.flatMap_cons, htext, hrest]

/-- **What is written are the segments, one after another.**  The root of the tree is spelled as a
segment with neither a name nor predicates. -/
theorem exists_writes_of_write {segments : List Segment} {t : String}
    (h : write segments = .ok t) :
    ∃ spellings, List.Forall₂ Spelling.Writes spellings segments ∧
      t.toList = spellings.flatMap Spelling.chars := by
  rcases write_eq_ok h with ⟨rfl, rfl⟩ | ⟨-, hwrite⟩
  · exact ⟨[⟨false, [], []⟩], .cons ⟨rfl, rfl, .nil⟩ .nil, by decide⟩
  · exact exists_writes_of_writeFrom hwrite

end Query
end Arbor

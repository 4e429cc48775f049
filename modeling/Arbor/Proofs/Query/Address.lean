/-
# Addresses

The query for an object with a path and an id has a child segment for every component of the path,
and on the last of them a predicate for the id.  The remote side evaluates it if the id has 32 bits:

| id | what is sent for `/App/Button` | what is filtered here |
| --- | --- | --- |
| `7` | `/App/Button[id=7]` | nothing |
| `3000000000` | `/App/Button` | the id |

A path is an address if its components are names and none of them is a parent where that cannot be
written (`Query.IsAddress`).  Then, and only then, there is a query, and it is the one in the table
(`Query.ofPath_eq_ok_iff`).
-/

import Arbor.Proofs.Literal.Writable
import Arbor.Proofs.Node
import Arbor.Proofs.Path
import Arbor.Proofs.Query.Reachable

namespace Arbor

/-! ## The segment with the id -/

section WithId

variable {id : Int64} {name : String}

theorem isServerSide_id_iff : isServerSide "id" (.int id) = true ↔ (Literal.int id).HasText := by
  rw [isServerSide, show isServerKey "id" = true by decide, Bool.true_and, Literal.isSendable,
    Literal.hasText_int_iff]

namespace Segment

/-- A segment with the predicate for an id. -/
def withId (name : String) (id : Int64) : Segment := child name (.ofList [("id", .int id)])

theorem clientPredicates_withId_of_hasText (h : (Literal.int id).HasText) :
    (withId name id).clientPredicates = .empty := by
  refine Filters.filter_not_eq_empty_iff.2 fun p hp => ?_
  obtain rfl := List.mem_singleton.1 hp
  exact isServerSide_id_iff.2 h

theorem sent_withId_of_hasText (h : (Literal.int id).HasText) :
    (withId name id).sent = withId name id :=
  sent_eq_self_iff.2 (clientPredicates_withId_of_hasText h)

theorem clientPredicates_withId_of_not_hasText (h : ¬(Literal.int id).HasText) :
    (withId name id).clientPredicates = .ofList [("id", .int id)] := by
  refine Filters.filter_eq_self_iff.2 fun p hp => ?_
  obtain rfl := List.mem_singleton.1 hp
  rw [Bool.not_eq_true', ← Bool.not_eq_true, isServerSide_id_iff]
  exact h

theorem sent_withId_of_not_hasText (h : ¬(Literal.int id).HasText) :
    (withId name id).sent = child name .empty := by
  have hnone : (withId name id).serverPredicates = .empty := by
    refine Filters.ext_toList (List.filter_eq_nil_iff.2 fun p hp => ?_)
    obtain rfl := List.mem_singleton.1 hp
    rw [isServerSide_id_iff]
    exact h
  rw [sent, hnone]
  rfl

end Segment
end WithId

namespace Query

open Segment (withId)

/-! ## Writing child segments -/

theorem admissible_child_iff {index : Nat} {name : String} {predicates : Filters} :
    Admissible index (Segment.child name predicates) ↔
      IsName name.toList ∧ (name = ".." → index ≠ 0 ∧ predicates = .empty) := by
  constructor
  · intro h
    exact ⟨h.name, fun hparent => (h.parent (beq_iff_eq.2 hparent)).imp_right And.right⟩
  · rintro ⟨hname, hparent⟩
    exact {
      name := hname
      parent := fun h => (hparent (beq_iff_eq.1 h)).imp_right fun hnone => ⟨rfl, hnone⟩
      wildcard := fun _ hrelative => absurd hrelative Bool.false_ne_true }

theorem writeSegment_child_eq_ok_iff {index : Nat} {name list t : String} {predicates : Filters}
    (hlist : writeList (.child name predicates) = .ok list) :
    writeSegment index (.child name predicates) = .ok t ↔
      (IsName name.toList ∧ (name = ".." → index ≠ 0 ∧ predicates = .empty)) ∧
        t = "/" ++ name ++ list := by
  rw [writeSegment_eq_ok_iff hlist, admissible_child_iff]
  rfl

/-- **Child segments, the last of which may have predicates.**  They have a text if their names are
names, the first is not the parent, and neither is the last if it has predicates. -/
theorem writeFrom_children_eq_ok_iff {index : Nat} {names : List String} {name list t : String}
    {predicates : Filters} (hlist : writeList (.child name predicates) = .ok list) :
    writeFrom index (names.map (Segment.child · .empty) ++ [Segment.child name predicates]) =
        .ok t ↔
      ((∀ c ∈ names ++ [name], IsName c.toList) ∧
        (index = 0 → (names ++ [name]).head? ≠ some "..") ∧
        (name = ".." → predicates = .empty)) ∧
      t = "/" ++ "/".intercalate (names ++ [name]) ++ list := by
  induction names generalizing index t with
  | nil =>
    rw [List.map_nil, List.nil_append, writeFrom_cons_eq_ok_iff]
    simp only [writeSegment_child_eq_ok_iff hlist, writeFrom]
    constructor
    · rintro ⟨first, others, ⟨⟨hname, hparent⟩, rfl⟩, hothers, rfl⟩
      obtain rfl := Except.ok.inj hothers
      refine ⟨⟨by simpa using hname, fun hindex hfirst => ?_, fun hlast => (hparent hlast).2⟩, ?_⟩
      · exact (hparent (Option.some.inj hfirst)).1 hindex
      · simp
    · rintro ⟨⟨hnames, hfirst, hlast⟩, rfl⟩
      refine ⟨_, "", ⟨⟨hnames name (by simp), fun hparent => ⟨?_, hlast hparent⟩⟩, rfl⟩, rfl, ?_⟩
      · exact fun hindex => hfirst hindex (congrArg some hparent)
      · simp
  | cons c rest ih =>
    have htext : "/" ++ c ++ "" ++ ("/" ++ "/".intercalate (rest ++ [name]) ++ list) =
        "/" ++ "/".intercalate (c :: (rest ++ [name])) ++ list := by
      rw [String.intercalate_cons_of_ne_nil (by simp)]
      simp [String.append_assoc]
    rw [List.map_cons, List.cons_append, List.cons_append, writeFrom_cons_eq_ok_iff]
    simp only [writeSegment_child_eq_ok_iff (show writeList (.child c .empty) = .ok "" from rfl),
      ih, List.forall_mem_cons]
    constructor
    -- the rest does not begin at index 0, so a parent is only refused in front of it
    · rintro ⟨first, others, ⟨⟨hname, hparent⟩, rfl⟩, ⟨⟨hnames, -, hlast⟩, rfl⟩, rfl⟩
      refine ⟨⟨⟨hname, hnames⟩, fun hindex hfirst => ?_, hlast⟩, htext⟩
      exact (hparent (Option.some.inj hfirst)).1 hindex
    · rintro ⟨⟨⟨hname, hnames⟩, hfirst, hlast⟩, rfl⟩
      refine ⟨_, _, ⟨⟨hname, fun hparent => ⟨fun hindex => ?_, trivial⟩⟩, rfl⟩,
        ⟨⟨hnames, fun hindex => absurd hindex (Nat.succ_ne_zero index), hlast⟩, rfl⟩, htext.symm⟩
      exact hfirst hindex (congrArg some hparent)

/-! ## Addresses -/

theorem addressSegments_append (id : Int64) (names : List String) (name : String) :
    addressSegments id (names ++ [name]) =
      names.map (Segment.child · .empty) ++ [withId name id] := by
  induction names with
  | nil => rfl
  | cons c rest ih =>
    rw [List.cons_append, addressSegments, ih]
    · rfl
    · simp

theorem writeList_withId {id : Int64} {name : String} (h : (Literal.int id).HasText) :
    writeList (withId name id) = .ok ("[id=" ++ toString id.toInt ++ "]") := by
  have hpredicate : writePredicate name ("id", .int id) =
      .ok ("id" ++ "=" ++ toString id.toInt) := by
    refine writePredicate_eq_ok_iff.2 ⟨isServerSide_id_iff.2 h, _, ?_, rfl⟩
    exact if_pos (Literal.hasText_int_iff.1 h)
  have htext : "[" ++ ("id" ++ "=" ++ toString id.toInt) ++ "]" =
      "[id=" ++ toString id.toInt ++ "]" := String.toList_injective (by simp)
  show (do return "[" ++ (← writePredicate name ("id", .int id)) ++ "]") = _
  rw [hpredicate, ← htext]
  rfl

/-- The query for the id beneath child segments, by what is sent of the segment with the id. -/
theorem ofSegments_withId_eq_ok_iff {names : List String} {name list : String} {id : Int64}
    {sent : Filters} {q : Query} (hne : ∀ c ∈ names ++ [name], c ≠ "")
    (hsent : (withId name id).sent = .child name sent)
    (hlist : writeList (.child name sent) = .ok list) :
    ofSegments (names.map (Segment.child · .empty) ++ [withId name id]) = .ok q ↔
      ((∀ c ∈ names ++ [name], IsName c.toList) ∧ (names ++ [name]).head? ≠ some ".." ∧
        (name = ".." → sent = .empty)) ∧
      q = ⟨names.map (Segment.child · .empty) ++ [withId name id],
        "/" ++ "/".intercalate (names ++ [name]) ++ list, (withId name id).clientPredicates⟩ := by
  have hinner : ∀ s ∈ names.map (Segment.child · .empty), s.clientPredicates = .empty := by
    intro s hs
    obtain ⟨c, -, rfl⟩ := List.mem_map.1 hs
    rfl
  have hwrite : write (names.map (Segment.child · .empty) ++ [Segment.child name sent]) =
      writeFrom 0 (names.map (Segment.child · .empty) ++ [Segment.child name sent]) := by
    cases names with
    | nil => exact write_eq_writeFrom (hne name (by simp))
    | cons c rest => exact write_eq_writeFrom (hne c (by simp))
  rw [ofSegments_append_eq_ok_iff, hsent, hwrite]
  simp only [writeFrom_children_eq_ok_iff hlist, true_implies]
  constructor
  · rintro ⟨-, t, ⟨hnames, rfl⟩, rfl⟩
    exact ⟨hnames, rfl⟩
  · rintro ⟨hnames, rfl⟩
    exact ⟨hinner, _, ⟨hnames, rfl⟩, rfl⟩

/-- A path that can be made a query: it begins with a slash, it has components, they are names, and
none of them is a parent that comes first or that the id would have to be sent with. -/
structure IsAddress (path : String) (id : Int64) : Prop where
  slash : path.toList.head? = some '/'
  ne_nil : Path.components path ≠ []
  names : ∀ c ∈ Path.components path, IsName c.toList
  first : (Path.components path).head? ≠ some ".."
  last : (Literal.int id).HasText → (Path.components path).getLast? ≠ some ".."

/-- The query for an object with a path and an id. -/
structure Addresses (path : String) (id : Int64) (q : Query) : Prop where
  segments : ∃ names name, Path.components path = names ++ [name] ∧
    q.segments = names.map (Segment.child · .empty) ++
      [Segment.child name (.ofList [("id", .int id)])]
  /-- An id of 32 bits is sent. -/
  sent : (Literal.int id).HasText →
    q.text = "/" ++ "/".intercalate (Path.components path) ++
        ("[id=" ++ toString id.toInt ++ "]") ∧
      q.clientFilters = .empty
  /-- Another one is filtered here. -/
  kept : ¬(Literal.int id).HasText →
    q.text = "/" ++ "/".intercalate (Path.components path) ∧
      q.clientFilters = .ofList [("id", .int id)]

/-- By the last component and what is sent about the id. -/
theorem addresses_iff {path name list : String} {names : List String} {id : Int64} {q : Query}
    (hcomponents : Path.components path = names ++ [name])
    (hsent : (Literal.int id).HasText → list = "[id=" ++ toString id.toInt ++ "]")
    (hkept : ¬(Literal.int id).HasText → list = "") :
    Addresses path id q ↔
      q = ⟨names.map (Segment.child · .empty) ++ [withId name id],
        "/" ++ "/".intercalate (names ++ [name]) ++ list, (withId name id).clientPredicates⟩ := by
  constructor
  · intro h
    obtain ⟨names', name', hcomponents', hsegments⟩ := h.segments
    obtain ⟨rfl, hname⟩ := List.append_inj' (hcomponents'.symm.trans hcomponents) rfl
    obtain rfl := List.singleton_inj.1 hname
    have hrest : q.text = "/" ++ "/".intercalate (names' ++ [name']) ++ list ∧
        q.clientFilters = (withId name' id).clientPredicates := by
      by_cases hid : (Literal.int id).HasText
      · rw [hsent hid, ← hcomponents, Segment.clientPredicates_withId_of_hasText hid]
        exact h.sent hid
      · rw [hkept hid, ← hcomponents, Segment.clientPredicates_withId_of_not_hasText hid,
          String.append_empty]
        exact h.kept hid
    obtain ⟨segments, text, filters⟩ := q
    exact Query.mk.injEq .. ▸ ⟨hsegments, hrest⟩
  · rintro rfl
    exact {
      segments := ⟨names, name, hcomponents, rfl⟩
      sent := fun hid => by
        rw [hcomponents, hsent hid]
        exact ⟨rfl, Segment.clientPredicates_withId_of_hasText hid⟩
      kept := fun hid => by
        rw [hcomponents, hkept hid, String.append_empty]
        exact ⟨rfl, Segment.clientPredicates_withId_of_not_hasText hid⟩ }

theorem isAddress_iff {path name : String} {names : List String} {id : Int64}
    (hslash : path.toList.head? = some '/') (hcomponents : Path.components path = names ++ [name]) :
    IsAddress path id ↔ (∀ c ∈ names ++ [name], IsName c.toList) ∧
      (names ++ [name]).head? ≠ some ".." ∧ ((Literal.int id).HasText → name ≠ "..") := by
  have hlast : (Path.components path).getLast? = some name := by
    rw [hcomponents, List.getLast?_concat]
  constructor
  · intro h
    exact ⟨hcomponents ▸ h.names, hcomponents ▸ h.first,
      fun hid hname => h.last hid (hlast.trans (congrArg some hname))⟩
  · rintro ⟨hnames, hfirst, hparent⟩
    exact {
      slash := hslash
      ne_nil := by simp [hcomponents]
      names := hcomponents ▸ hnames
      first := hcomponents ▸ hfirst
      last := fun hid h => hparent hid (Option.some.inj (hlast.symm.trans h)) }

/-- **The query for an address**, and for nothing else. -/
theorem ofPath_eq_ok_iff {path : String} {id : Int64} {q : Query} :
    ofPath path id = .ok q ↔ IsAddress path id ∧ Addresses path id q := by
  unfold ofPath
  split
  · next hpath =>
    obtain ⟨hslash, hne⟩ := hpath
    have hne : Path.components path ≠ [] := by simpa using hne
    obtain ⟨names, name, hcomponents⟩ :=
      (List.eq_nil_or_concat (Path.components path)).resolve_left hne
    rw [List.concat_eq_append] at hcomponents
    have hnames : ∀ c ∈ names ++ [name], c ≠ "" := fun c hc =>
      Path.ne_empty_of_mem_components (hcomponents ▸ hc)
    rw [isAddress_iff hslash hcomponents, hcomponents, addressSegments_append]
    by_cases hid : (Literal.int id).HasText
    · rw [ofSegments_withId_eq_ok_iff hnames (Segment.sent_withId_of_hasText hid)
        (writeList_withId hid), addresses_iff hcomponents (fun _ => rfl) (absurd hid)]
      have hsome : Filters.ofList [("id", .int id)] ≠ .empty := fun h =>
        absurd (congrArg Filters.toList h) (List.cons_ne_nil _ _)
      simp only [hid, hsome, true_implies, ne_eq, imp_false]
    · rw [ofSegments_withId_eq_ok_iff hnames (Segment.sent_withId_of_not_hasText hid) rfl,
        addresses_iff hcomponents (fun h => absurd h hid) fun _ => rfl]
      simp only [hid, false_implies, implies_true]
  · next hpath =>
    refine iff_of_false (by simp) fun h => hpath ⟨h.1.slash, ?_⟩
    simpa using h.1.ne_nil

/-- A parent can only be the last component if the id is wide, as its segment is sent without the
predicate then. -/
example : (ofPath "/App/.." 7).toOption = none ∧
    (ofPath "/App/.." 3000000000).toOption.map text = some "/App/.." := ⟨rfl, rfl⟩

/-! ## What the predicates say -/

/-- Nothing is left to evaluate here but the predicate on the id. -/
theorem eq_of_mem_clientFilters {path : String} {id : Int64} {q : Query}
    (h : ofPath path id = .ok q) : ∀ p ∈ q.clientFilters.toList, p = ("id", .int id) := by
  have haddress := (ofPath_eq_ok_iff.1 h).2
  intro p hp
  by_cases hid : (Literal.int id).HasText
  · rw [(haddress.sent hid).2] at hp
    exact absurd hp List.not_mem_nil
  · rw [(haddress.kept hid).2] at hp
    exact List.mem_singleton.1 hp

/-- An address selects by the id, and by nothing else. -/
theorem forall_satisfies_iff {path : String} {id : Int64} {q : Query} (h : ofPath path id = .ok q)
    (n : Node) :
    (∀ s ∈ q.segments, ∀ e ∈ s.predicates.toList, n.satisfies e.1 e.2 = true) ↔ n.id = id := by
  obtain ⟨names, name, -, hsegments⟩ := (ofPath_eq_ok_iff.1 h).2.segments
  rw [hsegments]
  constructor
  · intro hall
    have hid := hall (.child name (.ofList [("id", .int id)])) (by simp) ("id", .int id)
      (List.mem_singleton.2 rfl)
    exact (eq_of_beq hid).symm
  · rintro rfl s hs e he
    rcases List.mem_append.1 hs with hs | hs
    · obtain ⟨c, -, rfl⟩ := List.mem_map.1 hs
      exact absurd he List.not_mem_nil
    · obtain rfl := List.mem_singleton.1 hs
      obtain rfl := List.mem_singleton.1 he
      exact n.satisfies_id

end Query
end Arbor

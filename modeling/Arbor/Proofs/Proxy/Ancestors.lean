/-
# Ancestors

The nearest ancestor of a type is looked for in the path of the object, without the remote side, and
then asked for by as many steps to the parent.  Two ways to say which one it is come to the same
(`Path.isGreatest_ancestors`):

| components counted | the nearest ancestor of a type |
| --- | --- |
| from the root on, without the object | is the last that is the type |
| off the end, at least one | is what the path ends in once the fewest are taken off |

The object itself is not among its ancestors, though its type may occur among theirs.  The query for
so many steps upward exists unless the id of the object is filtered here
(`Query.Reachable.exists_ancestorQuery`).
-/

import Mathlib.Data.List.DropRight
import Mathlib.Order.Bounds.Basic
import Arbor.Proofs.Proxy.Navigation

namespace Arbor

open Arbor.Action

/-! ## Where the ancestors are -/

namespace Path

variable {names : List String} {name : String} {k : Nat}

/-- Where, counted from the root, the proper ancestors of a type are among the components of a
path. -/
def ancestors (names : List String) (name : String) : Set Nat :=
  {i | i + 1 < names.length ∧ names[i]? = some name}

/-- How many steps upward lead to a type: without so many components the path ends in it. -/
def climbs (names : List String) (name : String) : Set Nat :=
  {k | 0 < k ∧ (names.rdrop k).getLast? = some name}

theorem mem_climbs_iff :
    k ∈ climbs names name ↔
      0 < k ∧ k < names.length ∧ names[names.length - 1 - k]? = some name := by
  refine and_congr_right fun hk => ?_
  rw [List.rdrop, List.getLast?_eq_getElem?, List.length_take, List.getElem?_take]
  by_cases hlt : k < names.length
  · rw [if_pos (by omega), and_iff_right hlt,
      show min (names.length - k) names.length - 1 = names.length - 1 - k by omega]
  · rw [if_neg (by omega)]
    exact iff_of_false (by simp) fun h => hlt h.1

/-- Steps upward are counted against the places. -/
theorem sub_mem_ancestors (h : k ∈ climbs names name) :
    names.length - 1 - k ∈ ancestors names name := by
  obtain ⟨hk, hlt, hat⟩ := mem_climbs_iff.1 h
  exact ⟨by omega, hat⟩

theorem sub_mem_climbs {i : Nat} (h : i ∈ ancestors names name) :
    names.length - 1 - i ∈ climbs names name := by
  obtain ⟨hi, hat⟩ := h
  refine mem_climbs_iff.2 ⟨by omega, by omega, ?_⟩
  rw [show names.length - 1 - (names.length - 1 - i) = i by omega]
  exact hat

/-- **The fewest steps upward lead to the last place.** -/
theorem isGreatest_ancestors (h : IsLeast (climbs names name) k) :
    IsGreatest (ancestors names name) (names.length - 1 - k) := by
  refine ⟨sub_mem_ancestors h.1, fun i hi => ?_⟩
  have hleast : k ≤ names.length - 1 - i := h.2 (sub_mem_climbs hi)
  have hlt := hi.1
  omega

end Path

/-! ## The way up -/

namespace Proxy

theorem stepsUp?_eq_findIdx? (name : String) (above : List String) :
    stepsUp? name above = (above.findIdx? (· == name)).map (· + 1) := by
  induction above with
  | nil => rfl
  | cons c rest ih =>
    rw [stepsUp?, List.findIdx?_cons, ih]
    by_cases hc : c = name
    · rw [if_pos hc, if_pos (beq_iff_eq.2 hc)]
      rfl
    · rw [if_neg hc, if_neg (by simpa using hc)]

/-- Taking components off the end is the way up. -/
theorem getElem?_wayUp (names : List String) (k : Nat) :
    names.dropLast.reverse[k]? = (names.rdrop (k + 1)).getLast? := by
  rcases List.eq_nil_or_concat names with rfl | ⟨above, own, rfl⟩
  · simp
  · rw [List.concat_eq_append, List.dropLast_concat, List.rdrop_concat_succ,
      List.rdrop_eq_reverse_drop_reverse, List.getLast?_reverse, List.head?_drop]

/-- **The steps that are counted are the fewest.** -/
theorem isLeast_of_stepsUp? {names : List String} {name : String} {k : Nat}
    (h : stepsUp? name names.dropLast.reverse = some k) : IsLeast (Path.climbs names name) k := by
  rw [stepsUp?_eq_findIdx?, Option.map_eq_some_iff] at h
  obtain ⟨j, hj, rfl⟩ := h
  obtain ⟨hlt, hat, hbefore⟩ := List.findIdx?_eq_some_iff_getElem.1 hj
  refine ⟨⟨Nat.succ_pos j, ?_⟩, fun m hm => ?_⟩
  · rw [← getElem?_wayUp, List.getElem?_eq_getElem hlt, eq_of_beq hat]
  · -- a smaller number of steps would end before the first occurrence
    obtain ⟨hpos, hend⟩ := hm
    obtain ⟨m, rfl⟩ := Nat.exists_eq_add_of_lt hpos
    rw [Nat.zero_add, ← getElem?_wayUp] at hend
    obtain ⟨hm, hname⟩ := List.getElem?_eq_some_iff.1 hend
    by_contra hlater
    exact hbefore m (by omega) (beq_iff_eq.2 hname)

theorem stepsUp?_eq_none_iff {names : List String} {name : String} :
    stepsUp? name names.dropLast.reverse = none ↔ Path.ancestors names name = ∅ := by
  constructor
  · intro h
    refine Set.eq_empty_of_forall_notMem fun i hi => ?_
    obtain ⟨hpos, hend⟩ := Path.sub_mem_climbs hi
    rw [stepsUp?_eq_findIdx?, Option.map_eq_none_iff, List.findIdx?_eq_none_iff] at h
    obtain ⟨k, hk⟩ := Nat.exists_eq_add_of_lt hpos
    rw [hk, Nat.zero_add, ← getElem?_wayUp] at hend
    exact absurd (h name (List.mem_of_getElem? hend)) (by simp)
  · intro h
    refine Option.eq_none_iff_forall_not_mem.2 fun k hk => ?_
    have hmem := Path.sub_mem_ancestors (isLeast_of_stepsUp? hk).1
    rw [h] at hmem
    exact hmem

end Proxy

/-! ## Queries for ancestors -/

namespace Query

theorem writeSegment_parent : writeSegment 1 Segment.parent.sent = .ok "/.." := rfl

/-- One step upward. -/
theorem Reachable.exists_parent {q : Query} (hq : q.Reachable) (hname : q.target ≠ "")
    (hclient : q.clientFilters = .empty) :
    ∃ r, q.parent = .ok r ∧ r.text = q.text ++ "/.." ∧ r.target ≠ "" ∧
      r.clientFilters = .empty := by
  obtain ⟨r, hr⟩ := (hq.exists_extend_iff hname).2 ⟨hclient, _, writeSegment_parent⟩
  obtain ⟨-, t, ht, htext⟩ := exists_text_of_extend hq hr
  obtain rfl := Except.ok.inj (writeSegment_parent.symm.trans ht)
  obtain ⟨-, u, -, rfl⟩ := ofSegments_append_eq_ok_iff.1 ((extend_eq_ok_iff hq).1 hr)
  refine ⟨_, hr, htext, ?_, rfl⟩
  rw [target, List.getLast?_concat]
  decide

/-- **Any number of steps upward** makes a query if nothing is filtered here. -/
theorem Reachable.exists_ancestorQuery {q : Query} (hq : q.Reachable) (hname : q.target ≠ "")
    (hclient : q.clientFilters = .empty) (k : Nat) :
    ∃ r, Proxy.ancestorQuery q k = .ok r ∧
      r.text = q.text ++ String.join (List.replicate k "/..") := by
  induction k generalizing q with
  | zero => exact ⟨q, rfl, String.append_empty.symm⟩
  | succ k ih =>
    obtain ⟨up, hup, htext, hupName, hupClient⟩ := hq.exists_parent hname hclient
    obtain ⟨r, hr, hrest⟩ := ih (.parent hq hup) hupName hupClient
    refine ⟨r, ?_, ?_⟩
    · rw [Proxy.ancestorQuery, hup]
      exact hr
    · rw [hrest, htext, List.replicate_succ, String.join_cons, String.append_assoc]

/-- Where something is filtered here the first step is refused. -/
theorem ancestorQuery_of_clientFilters {q : Query} {k : Nat} (hk : 0 < k)
    (hclient : q.clientFilters ≠ .empty) : Proxy.ancestorQuery q k = .error .clientParent := by
  obtain ⟨k, rfl⟩ := Nat.exists_eq_add_of_lt hk
  have hparent : q.parent = .error .clientParent :=
    if_neg fun hempty => hclient (Filters.isEmpty_iff.1 hempty)
  rw [Nat.zero_add, Proxy.ancestorQuery, hparent]
  rfl

end Query

/-! ## The nearest ancestor -/

namespace Proxy

variable {σ : Type} {s : Session σ} {l : Link σ} {p : Proxy}

theorem parentOfType_of_stepsUp? {name : String} {k : Nat}
    (h : stepsUp? name (Path.components p.path).dropLast.reverse = some k) :
    p.parentOfType s name = withQuery (ancestorQuery p.query k) s.selectSingle := by
  rw [parentOfType, h]

/-- **The nearest ancestor of a type.**  If no component of the path but the last is the type,
nothing matches, and nothing is done with the connection.  Otherwise let the last of these be at
`i`.  If the id has 32 bits there is one call for objects, and its text is that of the query of the
object and behind it one step to the parent for every component after `i`; that many steps upward,
and no fewer, lead to the type.  If the id is wider, the query is refused, and nothing is done with
the connection. -/
theorem parentOfType_nearest (h : s.Holds l p) (name : String) (now : Nat) :
    (Path.ancestors (Path.components p.path) name = ∅ →
      p.parentOfType s name now l =
        ⟨.error (.notFound s!"ancestor '{name}' of {p.path}" .noMatch), 0, l⟩) ∧
    ((Path.ancestors (Path.components p.path) name).Nonempty →
      ∃ i k, IsGreatest (Path.ancestors (Path.components p.path) name) i ∧
        i + k + 1 = (Path.components p.path).length ∧
        (Path.components p.path).rdrop k = (Path.components p.path).take (i + 1) ∧
        IsLeast (Path.climbs (Path.components p.path) name) k ∧
        (Json.inInt32 p.id.toInt = true → ∃ answer, (p.parentOfType s name now l).state.calls =
          .state now (p.query.text ++ String.join (List.replicate k "/..")) answer :: l.calls) ∧
        (¬Json.inInt32 p.id.toInt = true → p.parentOfType s name now l =
          ⟨.error (.invalidQuery Query.Fault.clientParent.message), 0, l⟩)) := by
  refine ⟨fun hnone => ?_, fun hsome => ?_⟩
  · rw [parentOfType, stepsUp?_eq_none_iff.2 hnone]
    rfl
  · obtain ⟨k, hk⟩ := Option.ne_none_iff_exists'.1
      (mt stepsUp?_eq_none_iff.1 hsome.ne_empty)
    have hleast := isLeast_of_stepsUp? hk
    obtain ⟨hpos, hlt, -⟩ := Path.mem_climbs_iff.1 hleast.1
    obtain ⟨n, hbind⟩ := h.exists_bind
    have hreachable := (Session.bind_eq_ok_iff_binds.1 hbind).reachable
    refine ⟨_, k, Path.isGreatest_ancestors hleast, by omega, ?_, hleast, fun hid => ?_,
      fun hid => ?_⟩
    · rw [List.rdrop]
      congr 1
      omega
    · obtain ⟨q, hq, htext⟩ := hreachable.exists_ancestorQuery
        (Session.target_ne_empty_of_bind hbind) ((Session.clientFilters_of_bind hbind).2 hid) k
      obtain ⟨answer, hcalls⟩ := calls_of_executes h
        ((s.executes_execute q).bind fun _ => .ofExcept _) now
      refine ⟨answer, ?_⟩
      rw [parentOfType_of_stepsUp? hk, withQuery_of_ok hq, ← htext]
      exact hcalls
    · rw [parentOfType_of_stepsUp? hk]
      exact withQuery_of_error (Query.ancestorQuery_of_clientFilters hpos
        (mt (Session.clientFilters_of_bind hbind).1 hid)) _ now l

/-- An entry for a panel in a panel, both of them in a game. -/
def nestedEntry (id : Int) : Entry := ⟨"/Game/Panel/Game/Panel", [("id", .arr [.int 0, .int id])]⟩

/-- A session with the panel, and the connection over which it was found. -/
def nestedSession (id : Int) : Session Unit := .answering .default [nestedEntry id]

def nestedFound (id : Int) : Link Unit :=
  ((nestedSession id).selectSingle .pseudoRoot 0 (Link.start ())).state

/-- The panel, with what is sent of its id and what is filtered here. -/
def nestedPanel (id : Int64) (sent : String) (kept : Filters) : Proxy where
  node := ⟨"/Game/Panel/Game/Panel", id, [], none, none⟩
  className := .generic
  query := ⟨[.child "Game" .empty, .child "Panel" .empty, .child "Game" .empty,
    .child "Panel" (.ofList [("id", .int id)])], "/Game/Panel/Game/Panel" ++ sent, kept⟩

/-- The nearest panel above the panel is two steps away, not where the panel itself is.  There is no
button above it.  With a wide id it has no way up. -/
theorem parentOfType_nestedPanel :
    (∃ answer, ((nestedPanel 7 "[id=7]" .empty).parentOfType (nestedSession 7) "Panel" 0
        (nestedFound 7)).state.calls =
      .state 0 "/Game/Panel/Game/Panel[id=7]/../.." answer :: (nestedFound 7).calls) ∧
    (nestedPanel 7 "[id=7]" .empty).parentOfType (nestedSession 7) "Button" 0 (nestedFound 7) =
      ⟨.error (.notFound "ancestor 'Button' of /Game/Panel/Game/Panel" .noMatch), 0,
        nestedFound 7⟩ ∧
    (nestedPanel 1099511627776 "" (.ofList [("id", .int 1099511627776)])).parentOfType
        (nestedSession 1099511627776) "Panel" 0 (nestedFound 1099511627776) =
      ⟨.error (.invalidQuery Query.Fault.clientParent.message), 0, nestedFound 1099511627776⟩ := by
  have hheld : (nestedSession 7).Holds (nestedFound 7) (nestedPanel 7 "[id=7]" .empty) :=
    Session.holds_of_selectSingle rfl
  have hwide : (nestedSession 1099511627776).Holds (nestedFound 1099511627776)
      (nestedPanel 1099511627776 "" (.ofList [("id", .int 1099511627776)])) :=
    Session.holds_of_selectSingle rfl
  have hleast : IsLeast (Path.climbs ["Game", "Panel", "Game", "Panel"] "Panel") 2 :=
    isLeast_of_stepsUp? rfl
  have hsome : (Path.ancestors ["Game", "Panel", "Game", "Panel"] "Panel").Nonempty :=
    ⟨1, by decide, rfl⟩
  obtain ⟨-, hpanel⟩ := parentOfType_nearest hheld "Panel" 0
  obtain ⟨hbutton, -⟩ := parentOfType_nearest hheld "Button" 0
  obtain ⟨-, hrefused⟩ := parentOfType_nearest hwide "Panel" 0
  refine ⟨?_, hbutton (stepsUp?_eq_none_iff.1 rfl), ?_⟩
  · obtain ⟨_, k, -, -, -, hk, hsent, -⟩ := hpanel hsome
    obtain rfl := hk.unique hleast
    exact hsent (by decide)
  · obtain ⟨_, _, -, -, -, -, -, h⟩ := hrefused hsome
    exact h (by decide)

end Proxy
end Arbor

/-
# Proxies in the order of keys

Two objects are told apart by the first key on which they differ (`Proxy.Precedes`):

| key | an object stands before another |
| --- | --- |
| `id` | with a smaller id |
| any other | without the attribute, where the other has it |
| | with a smaller value, where both have it |

A selection that is sorted makes the same calls as one that is not.  What it gives are the same
objects, none right after one that it precedes, and objects that agree on all keys in the order of
the reply (`Proxy.Arranges`); no other list has all of this.  So to sort by some keys and, where
these agree, by others is to sort by the others first (`Proxy.sortBy_append`): both lists are
arrangements by all keys.

That an arrangement is the only one is a fact about stable sorting by any comparison
(`eq_of_filter_level`): two sorted lists begin with elements that are level, and so with the same
one if they agree on what is level with it.
-/

import Arbor.Proofs.Action
import Arbor.Proofs.Result
import Arbor.Proofs.Value.Order
import Arbor.Proxy.Sorting

namespace Arbor

/-! ## Stable sorting -/

section Stable

variable {α : Type} {cmp : α → α → Ordering}

/-- Two elements are level if neither is less than the other. -/
def level (cmp : α → α → Ordering) (a b : α) : Bool := cmp a b == .eq

theorem level_iff {a b : α} : level cmp a b = true ↔ cmp a b = .eq := beq_iff_eq

theorem level_self [Std.ReflCmp cmp] (a : α) : level cmp a a = true :=
  level_iff.2 Std.ReflCmp.compare_self

/-- Elements that are all level with one are sorted however they stand. -/
theorem pairwise_of_forall_level [Std.TransCmp cmp] {l : List α} {a : α}
    (h : ∀ b ∈ l, level cmp a b = true) : l.Pairwise fun b c => (cmp b c).isLE := by
  refine List.pairwise_iff_forall_sublist.2 fun {b c} hbc => ?_
  have hb := level_iff.1 (h b (hbc.subset (by simp)))
  have hc := level_iff.1 (h c (hbc.subset (by simp)))
  rw [Std.TransCmp.eq_trans (Std.OrientedCmp.eq_symm hb) hc]
  rfl

theorem isLE_or_isLE [Std.OrientedCmp cmp] (a b : α) :
    ((cmp a b).isLE || (cmp b a).isLE) = true := by
  have hswap : cmp b a = (cmp a b).swap := Std.OrientedCmp.eq_swap
  rw [hswap]
  cases cmp a b <;> rfl

theorem pairwise_mergeSort_isLE [Std.TransCmp cmp] (l : List α) :
    (l.mergeSort fun a b => (cmp a b).isLE).Pairwise fun a b => (cmp a b).isLE :=
  List.pairwise_mergeSort (fun _ _ _ => Std.TransCmp.isLE_trans) isLE_or_isLE l

/-- **Sorting keeps elements that are level in their order.** -/
theorem filter_level_mergeSort [Std.TransCmp cmp] (l : List α) (a : α) :
    (l.mergeSort fun b c => (cmp b c).isLE).filter (level cmp a) = l.filter (level cmp a) := by
  have hlevel : ∀ b ∈ l.filter (level cmp a), level cmp a b = true :=
    fun b hb => (List.mem_filter.1 hb).2
  have hsublist : (l.filter (level cmp a)).Sublist (l.mergeSort fun b c => (cmp b c).isLE) :=
    List.sublist_mergeSort (fun _ _ _ => Std.TransCmp.isLE_trans) isLE_or_isLE
      (pairwise_of_forall_level hlevel) List.filter_sublist
  have hfilter := hsublist.filter (level cmp a)
  rw [List.filter_filter] at hfilter
  simp only [Bool.and_self] at hfilter
  exact (hfilter.eq_of_length ((List.mergeSort_perm l _).filter _).length_eq.symm).symm

/-- **A sorted list is determined by the order of what is level.** -/
theorem eq_of_filter_level [Std.TransCmp cmp] {l m : List α}
    (hl : l.Pairwise fun a b => (cmp a b).isLE) (hm : m.Pairwise fun a b => (cmp a b).isLE)
    (h : ∀ a, l.filter (level cmp a) = m.filter (level cmp a)) : l = m := by
  have hmem : ∀ {l m : List α}, (∀ a, l.filter (level cmp a) = m.filter (level cmp a)) →
      ∀ a ∈ l, a ∈ m := by
    intro l m h a ha
    have hfilter : a ∈ l.filter (level cmp a) := List.mem_filter.2 ⟨ha, level_self a⟩
    rw [h] at hfilter
    exact (List.mem_filter.1 hfilter).1
  induction l generalizing m with
  | nil =>
    cases m with
    | nil => rfl
    | cons b rest => exact absurd (hmem (fun a => (h a).symm) b (by simp)) List.not_mem_nil
  | cons a l ih =>
    cases m with
    | nil => exact absurd (hmem h a (by simp)) List.not_mem_nil
    | cons b m =>
      obtain ⟨hal, htail⟩ := List.pairwise_cons.1 hl
      obtain ⟨hbm, htail'⟩ := List.pairwise_cons.1 hm
      -- each of the two heads is in the other list, so neither is less
      have hba : (cmp b a).isLE = true := by
        rcases List.mem_cons.1 (hmem h a (by simp)) with rfl | ha
        · exact Std.ReflCmp.isLE_rfl
        · exact hbm a ha
      have hab : (cmp a b).isLE = true := by
        rcases List.mem_cons.1 (hmem (fun c => (h c).symm) b (by simp)) with rfl | hb
        · exact Std.ReflCmp.isLE_rfl
        · exact hal b hb
      have hlevel : level cmp a b = true :=
        level_iff.2 (Std.OrientedCmp.isLE_antisymm hab hba)
      have hhead := h a
      rw [List.filter_cons_of_pos (level_self a), List.filter_cons_of_pos hlevel] at hhead
      obtain ⟨rfl, -⟩ := List.cons.inj hhead
      refine congrArg (a :: ·) (ih htail htail' fun c => ?_)
      have hrest := h c
      rw [List.filter_cons, List.filter_cons] at hrest
      split at hrest
      · exact (List.cons.inj hrest).2
      · exact hrest

/-- A list that is sorted stays so, where another comparison by which it is sorted again finds no
difference. -/
theorem pairwise_then_mergeSort [Std.TransCmp cmp] {other : α → α → Ordering} {l : List α}
    (hl : l.Pairwise fun a b => (other a b).isLE) :
    (l.mergeSort fun a b => (cmp a b).isLE).Pairwise fun a b =>
      ((cmp a b).then (other a b)).isLE := by
  refine List.pairwise_iff_forall_sublist.2 fun {a b} hab => ?_
  have hle := List.pairwise_iff_forall_sublist.1 (pairwise_mergeSort_isLE l) hab
  cases hcmp : cmp a b with
  | lt => rfl
  | gt => exact absurd (hcmp ▸ hle) (by decide)
  | eq =>
    -- the two are level, so they stand in the list as they do in the sorted one
    have hpair : [a, b].filter (level cmp a) = [a, b] := by
      rw [List.filter_cons_of_pos (level_self a), List.filter_cons_of_pos (level_iff.2 hcmp)]
      rfl
    have hstood := hab.filter (level cmp a)
    rw [hpair, filter_level_mergeSort] at hstood
    exact List.pairwise_iff_forall_sublist.1 hl (hstood.trans List.filter_sublist)

end Stable

/-! ## Comparing under one key -/

namespace SortKey

/-- A missing attribute, an id, a value. -/
def rank : SortKey → Nat
  | .missing => 0
  | .id _ => 1
  | .value _ => 2

/-- The id, if it is one; if not, it does not matter which. -/
def idPart : SortKey → Int64
  | .id i => i
  | _ => 0

/-- The value, if it is one; if not, it does not matter which. -/
def valuePart : SortKey → Value
  | .value v => v
  | _ => .plain (.bool false)

/-- Rank decides, then the id or the value. -/
theorem compare_eq_compareLex :
    compare =
      compareLex (compareOn rank) (compareLex (compareOn idPart) (compareOn valuePart)) := by
  funext a b
  cases a with
  | missing => cases b <;> rfl
  | id i =>
    cases b with
    | id j => exact (Ordering.then_eq).symm
    | _ => rfl
  | value v => cases b <;> rfl

instance : Ord SortKey := ⟨compare⟩

instance : Std.TransOrd SortKey :=
  show Std.TransCmp compare from compare_eq_compareLex ▸ inferInstance

theorem compare_eq_eq_iff {a b : SortKey} : a.compare b = .eq ↔ a = b := by
  cases a <;> cases b <;> simp [compare]

end SortKey

namespace Proxy

/-! ## Comparing by keys -/

/-- Under a key, an object stands before another. -/
def PrecedesAt (key : String) (a b : Proxy) : Prop :=
  if key = "id" then a.id.toInt < b.id.toInt
  else
    match a.attribute? key, b.attribute? key with
    | none, some _ => True
    | some v, some w => v.cmp w = .lt
    | _, none => False

/-- Under a key, two objects do not differ. -/
def AgreesAt (key : String) (a b : Proxy) : Prop :=
  if key = "id" then a.id = b.id else a.attribute? key = b.attribute? key

instance (key : String) (a b : Proxy) : Decidable (AgreesAt key a b) :=
  inferInstanceAs (Decidable
    (if key = "id" then a.id = b.id else a.attribute? key = b.attribute? key))

/-- An object stands before another under the first key on which they differ. -/
inductive Precedes : List String → Proxy → Proxy → Prop
  | here {key : String} {rest : List String} {a b : Proxy} (h : PrecedesAt key a b) :
    Precedes (key :: rest) a b
  | later {key : String} {rest : List String} {a b : Proxy} (hkey : AgreesAt key a b)
    (h : Precedes rest a b) : Precedes (key :: rest) a b

/-- Two objects agree on all keys. -/
def Agrees (keys : List String) (a b : Proxy) : Prop := ∀ key ∈ keys, AgreesAt key a b

instance (keys : List String) (a b : Proxy) : Decidable (Agrees keys a b) :=
  inferInstanceAs (Decidable (∀ key ∈ keys, AgreesAt key a b))

/-- An arrangement of objects in the order of the keys. -/
structure Arranges (keys : List String) (ps sorted : List Proxy) : Prop where
  perm : sorted.Perm ps
  /-- Of two neighbours, the second does not precede the first. -/
  ordered : sorted.IsChain fun a b => ¬Precedes keys b a
  /-- Objects that agree on all keys stand in the order in which they stood. -/
  stable : ∀ a, sorted.filter (fun b => Agrees keys a b) = ps.filter fun b => Agrees keys a b

/-! ## The order of the keys -/

theorem agreesAt_iff {key : String} {a b : Proxy} :
    AgreesAt key a b ↔ a.sortKey key = b.sortKey key := by
  unfold AgreesAt sortKey
  split
  · rw [SortKey.id.injEq]
  · cases a.attribute? key <;> cases b.attribute? key <;> simp

theorem precedesAt_iff {key : String} {a b : Proxy} :
    PrecedesAt key a b ↔ (a.sortKey key).compare (b.sortKey key) = .lt := by
  unfold PrecedesAt sortKey
  split
  · exact Int64.lt_iff_toInt_lt.symm.trans compareOfLessAndEq_eq_lt.symm
  · cases a.attribute? key with
    | none => cases b.attribute? key <;> simp [SortKey.compare]
    | some v =>
      cases b.attribute? key with
      | none => simp [SortKey.compare]
      | some w => exact Iff.rfl

theorem compareBy_cons (key : String) (rest : List String) :
    compareBy (key :: rest) = compareLex (compareOn fun p => p.sortKey key) (compareBy rest) :=
  rfl

instance (keys : List String) : Std.TransCmp (compareBy keys) := by
  induction keys with
  | nil => exact { eq_swap := rfl, isLE_trans := fun _ _ => rfl }
  | cons key rest ih =>
    rw [compareBy_cons]
    infer_instance

theorem compareBy_eq_eq_iff {keys : List String} {a b : Proxy} :
    compareBy keys a b = .eq ↔ Agrees keys a b := by
  induction keys with
  | nil => simp [compareBy, Agrees]
  | cons key rest ih =>
    rw [compareBy, Ordering.then_eq_eq, ih, SortKey.compare_eq_eq_iff, ← agreesAt_iff]
    exact (List.forall_mem_cons (p := fun key => AgreesAt key a b)).symm

/-- **The first key on which two objects differ decides.** -/
theorem compareBy_eq_lt_iff {keys : List String} {a b : Proxy} :
    compareBy keys a b = .lt ↔ Precedes keys a b := by
  induction keys with
  | nil =>
    refine iff_of_false (by simp [compareBy]) ?_
    rintro ⟨⟩
  | cons key rest ih =>
    rw [compareBy, Ordering.then_eq_lt, ih, SortKey.compare_eq_eq_iff, ← agreesAt_iff,
      ← precedesAt_iff]
    constructor
    · rintro (h | ⟨hkey, h⟩)
      · exact .here h
      · exact .later hkey h
    · rintro (h | ⟨hkey, h⟩)
      · exact Or.inl h
      · exact Or.inr ⟨hkey, h⟩

theorem isLE_compareBy_iff {keys : List String} {a b : Proxy} :
    (compareBy keys a b).isLE = true ↔ ¬Precedes keys b a := by
  have hswap : compareBy keys b a = (compareBy keys a b).swap := Std.OrientedCmp.eq_swap
  rw [← compareBy_eq_lt_iff, hswap]
  cases compareBy keys a b <;> simp

/-- The comparison by some keys and then by others. -/
theorem compareBy_append (keys others : List String) (a b : Proxy) :
    compareBy (keys ++ others) a b = (compareBy keys a b).then (compareBy others a b) := by
  induction keys with
  | nil => rfl
  | cons key rest ih =>
    rw [List.cons_append, compareBy, compareBy, ih, Ordering.then_assoc]

/-! ## Sorting by keys -/

theorem level_compareBy (keys : List String) (a : Proxy) :
    level (compareBy keys) a = fun b => decide (Agrees keys a b) := by
  funext b
  rw [Bool.eq_iff_iff, level_iff, compareBy_eq_eq_iff, decide_eq_true_iff]

theorem filter_level_append (keys others : List String) (a : Proxy) (ps : List Proxy) :
    ps.filter (level (compareBy (keys ++ others)) a) =
      (ps.filter (level (compareBy keys) a)).filter (level (compareBy others) a) := by
  rw [List.filter_filter]
  refine congrArg (List.filter · ps) (funext fun b => ?_)
  rw [Bool.eq_iff_iff, Bool.and_eq_true, level_iff, level_iff, level_iff, compareBy_append,
    Ordering.then_eq_eq, and_comm]

theorem isChain_iff {keys : List String} {ps : List Proxy} :
    (ps.IsChain fun a b => ¬Precedes keys b a) ↔
      ps.Pairwise fun a b => (compareBy keys a b).isLE := by
  have htrans : Trans (fun a b => (compareBy keys a b).isLE = true)
      (fun a b => (compareBy keys a b).isLE = true)
      (fun a b => (compareBy keys a b).isLE = true) := ⟨Std.TransCmp.isLE_trans⟩
  rw [← List.isChain_iff_pairwise]
  simp only [isLE_compareBy_iff]

theorem pairwise_sortBy (keys : List String) (ps : List Proxy) :
    (sortBy keys ps).Pairwise fun a b => (compareBy keys a b).isLE :=
  pairwise_mergeSort_isLE ps

theorem filter_level_sortBy (keys : List String) (ps : List Proxy) (a : Proxy) :
    (sortBy keys ps).filter (level (compareBy keys) a) = ps.filter (level (compareBy keys) a) :=
  filter_level_mergeSort ps a

/-- **What sorting gives is the only arrangement.** -/
theorem sortBy_eq_iff {keys : List String} {ps qs : List Proxy} :
    sortBy keys ps = qs ↔ Arranges keys ps qs := by
  have hsorts : Arranges keys ps (sortBy keys ps) := by
    refine ⟨List.mergeSort_perm _ _, isChain_iff.2 (pairwise_sortBy keys ps), fun a => ?_⟩
    rw [← level_compareBy]
    exact filter_level_sortBy keys ps a
  constructor
  · rintro rfl
    exact hsorts
  · intro h
    refine eq_of_filter_level (pairwise_sortBy keys ps) (isChain_iff.1 h.ordered) fun a => ?_
    rw [level_compareBy, hsorts.stable, h.stable]

/-- Labels and ids: an object without a label comes first, and the smaller id decides between two
with the same label. -/
example :
    let button (id : Int64) (attributes : Attributes) : Proxy :=
      ⟨⟨"/App/Button", id, attributes, none, none⟩, .generic, .pseudoRoot⟩
    let labelled (id : Int64) (label : String) : Proxy :=
      button id [("label", .plain (.text label))]
    (sortBy ["label", "id"] [labelled 7 "b", labelled 3 "b", labelled 5 "a", button 6 []]).map id =
      [6, 5, 3, 7] := by
  cbv

/-- **To sort by some keys and then by others is to sort by the others first.** -/
theorem sortBy_append (keys others : List String) (ps : List Proxy) :
    sortBy (keys ++ others) ps = sortBy keys (sortBy others ps) := by
  have htwice : (sortBy keys (sortBy others ps)).Pairwise fun a b =>
      ((compareBy keys a b).then (compareBy others a b)).isLE :=
    pairwise_then_mergeSort (pairwise_sortBy others ps)
  simp only [← compareBy_append] at htwice
  refine eq_of_filter_level (pairwise_sortBy _ ps) htwice fun a => ?_
  rw [filter_level_sortBy, filter_level_append, filter_level_append, filter_level_sortBy,
    List.filter_comm, List.filter_comm _ _ (sortBy others ps), filter_level_sortBy]

theorem selectManySorted_apply {σ : Type} (s : Session σ) (p : Proxy) (name : String)
    (filters : Filters) (keys : List String) (now : Nat) (l : Link σ) :
    p.selectManySorted s name filters keys now l =
      ⟨(p.selectMany s name filters now l).result.map (sortBy keys),
        (p.selectMany s name filters now l).elapsed,
        (p.selectMany s name filters now l).state⟩ :=
  Action.bind_pure_apply _ _ now l

/-- **A sorted selection is the selection, arranged by the keys.**  It takes the same time, makes
the same calls and fails in the same way.  Its objects are the only arrangement of those of the
selection.  To sort by some keys and then by others is to sort by the others first. -/
theorem arranged_selectManySorted {σ : Type} (s : Session σ) (p : Proxy) (name : String)
    (filters : Filters) (keys : List String) (now : Nat) (l : Link σ) :
    ((p.selectManySorted s name filters keys now l).elapsed =
        (p.selectMany s name filters now l).elapsed ∧
      (p.selectManySorted s name filters keys now l).state =
        (p.selectMany s name filters now l).state) ∧
    (∀ failure, (p.selectManySorted s name filters keys now l).result = .error failure ↔
      (p.selectMany s name filters now l).result = .error failure) ∧
    (∀ qs, (p.selectManySorted s name filters keys now l).result = .ok qs ↔
      ∃ ps, (p.selectMany s name filters now l).result = .ok ps ∧ Arranges keys ps qs) ∧
    ∀ first others ps, sortBy (first ++ others) ps = sortBy first (sortBy others ps) := by
  rw [selectManySorted_apply]
  refine ⟨⟨rfl, rfl⟩, fun failure => map_eq_error_iff, fun qs => ?_, sortBy_append⟩
  refine map_eq_ok_iff.trans (exists_congr fun ps => and_congr_right fun _ => ?_)
  exact sortBy_eq_iff

end Proxy
end Arbor

/-
# Filters and their history

Filters are made by setting keys, one at a time or all of a list, and by taking apart what was made.
What was set on the way, in order, is their history, and of this history they keep

| of a key | what they keep |
| --- | --- |
| its place | where it was set first |
| its literal | the one that was set last |

and nothing else (`Records`).  Setting a key keeps this up, whether the key is new or not
(`Records.insert`), and so does leaving out predicates, with the part of the history that is about
the keys that stay (`Records.filter`); so all filters record their history (`records_of_made`).  A
history is recorded in one way only (`Records.eq`).

The predicates that pass a test and those that fail it record each a part of the history, and a key
is looked up in the one and, if it is not there, in the other (`get?_partition`).
-/

import Arbor.Proofs.Query.Filters
import Mathlib.Data.Finset.Card
import Mathlib.Data.List.Sort

namespace Arbor
namespace Filters

/-- What was set, in order. -/
abbrev History : Type := List (String × Literal)

namespace History

/-- The keys that were set, as often as they were. -/
def keys (history : History) : List String := history.map Prod.fst

/-- A literal is the last one that was set for a key. -/
def IsLast (history : History) (key : String) (value : Literal) : Prop :=
  ∃ before after, history = before ++ (key, value) :: after ∧ key ∉ keys after

/-- One key was set for the first time before another was. -/
def IsSetBefore (history : History) (a b : String) : Prop :=
  history.keys.idxOf a < history.keys.idxOf b

/-- What was set for the keys of a list. -/
def about (history : History) (names : List String) : History :=
  history.filter fun p => p.1 ∈ names

variable {history : History} {key : String} {value : Literal}

/-- The last literal is found from the end. -/
theorem find?_reverse_eq_some_iff :
    Keyed.find? key history.reverse = some value ↔ history.IsLast key value := by
  rw [Keyed.find?_eq_some_iff]
  constructor
  · rintro ⟨before, after, hreverse, hbefore⟩
    refine ⟨after.reverse, before.reverse, ?_, ?_⟩
    · rw [← List.reverse_reverse history, hreverse]
      simp
    · rwa [keys, List.map_reverse, List.mem_reverse]
  · rintro ⟨before, after, rfl, hafter⟩
    refine ⟨after.reverse, before.reverse, by simp, ?_⟩
    rwa [List.map_reverse, List.mem_reverse]

theorem find?_reverse_eq_none_iff :
    Keyed.find? key history.reverse = none ↔ key ∉ history.keys := by
  rw [← Option.not_isSome_iff_eq_none, Keyed.find?_isSome_iff, List.map_reverse, List.mem_reverse,
    keys]

theorem find?_reverse_about (history : History) (names : List String) (key : String) :
    Keyed.find? key (history.about names).reverse =
      if key ∈ names then Keyed.find? key history.reverse else none := by
  rw [about, ← List.filter_reverse, Keyed.find?_filter_key fun k => k ∈ names]
  simp only [decide_eq_true_eq]

theorem keys_about (history : History) (names : List String) :
    (history.about names).keys = history.keys.filter (· ∈ names) := by
  rw [about, keys, keys, List.filter_map]
  rfl

/-- What comes first in a list stays first when others are left out. -/
theorem idxOf_filter_lt {keep : String → Bool} {l : List String} {a b : String}
    (ha : keep a = true) (h : l.idxOf a < l.idxOf b) :
    (l.filter keep).idxOf a < (l.filter keep).idxOf b := by
  induction l with
  | nil => exact absurd h (Nat.lt_irrefl _)
  | cons c rest ih =>
    by_cases hca : c = a
    · subst hca
      have hcb : c ≠ b := by
        rintro rfl
        exact Nat.lt_irrefl _ h
      rw [List.filter_cons_of_pos ha, List.idxOf_cons_self, List.idxOf_cons_ne _ hcb]
      exact Nat.succ_pos _
    · have hcb : c ≠ b := by
        rintro rfl
        rw [List.idxOf_cons_self] at h
        exact Nat.not_lt_zero _ h
      rw [List.idxOf_cons_ne _ hca, List.idxOf_cons_ne _ hcb] at h
      have hrest := ih (Nat.lt_of_succ_lt_succ h)
      rw [List.filter_cons]
      split
      · rw [List.idxOf_cons_ne _ hca, List.idxOf_cons_ne _ hcb]
        exact Nat.succ_lt_succ hrest
      · exact hrest

/-- Keys come in the same order in what was set for them. -/
theorem IsSetBefore.about {names : List String} {a b : String} (h : history.IsSetBefore a b)
    (ha : a ∈ names) : (history.about names).IsSetBefore a b := by
  rw [IsSetBefore, keys_about]
  exact idxOf_filter_lt (decide_eq_true ha) h

theorem keys_append (history later : History) :
    keys (history ++ later) = history.keys ++ keys later := List.map_append

/-- Whatever is set afterwards, keys that were set before come in the same order. -/
theorem IsSetBefore.append {a b : String} (h : history.IsSetBefore a b) (ha : a ∈ history.keys)
    (hb : b ∈ history.keys) (later : History) : IsSetBefore (history ++ later) a b := by
  rw [IsSetBefore, keys_append]
  rwa [List.idxOf_append_of_mem ha, List.idxOf_append_of_mem hb]

/-- A key that is set for the first time comes last. -/
theorem isSetBefore_concat {a : String} (ha : a ∈ history.keys) (hkey : key ∉ history.keys)
    (value : Literal) : IsSetBefore (history ++ [(key, value)]) a key := by
  rw [IsSetBefore, keys_append]
  have hlength := List.idxOf_lt_length_of_mem ha
  rw [List.idxOf_append_of_mem ha, List.idxOf_append_of_notMem hkey]
  exact Nat.lt_add_right _ hlength

end History

/-! ## What is recorded -/

/-- Filters record a history: its keys, each once, in the order in which they were first set, and
with each the last literal that was set for it. -/
structure Records (history : History) (f : Filters) : Prop where
  nodup : f.keys.Nodup
  mem_keys_iff : ∀ key, key ∈ f.keys ↔ key ∈ history.keys
  ordered : f.keys.Pairwise history.IsSetBefore
  mem_iff : ∀ key value, (key, value) ∈ f.toList ↔ history.IsLast key value
  get?_eq_some_iff : ∀ key value, f.get? key = some value ↔ history.IsLast key value
  get?_eq_none_iff : ∀ key, f.get? key = none ↔ key ∉ history.keys
  size_eq : f.size = history.keys.toFinset.card

variable {history : History} {f g : Filters}

/-- It is enough that keys are ordered and that what is found is what was set last. -/
theorem Records.of_get?
    (hordered : f.keys.Pairwise history.IsSetBefore)
    (hget : ∀ key, f.get? key = Keyed.find? key history.reverse) : Records history f := by
  have hsome (key : String) (value : Literal) :
      f.get? key = some value ↔ history.IsLast key value := by
    rw [hget, History.find?_reverse_eq_some_iff]
  have hnone (key : String) : f.get? key = none ↔ key ∉ history.keys := by
    rw [hget, History.find?_reverse_eq_none_iff]
  have hkeys (key : String) : key ∈ f.keys ↔ key ∈ history.keys := by
    rw [← not_iff_not, ← Filters.get?_eq_none_iff, hnone]
  refine ⟨f.nodup, hkeys, hordered, fun key value => ?_, hsome, hnone, ?_⟩
  · rw [← Filters.get?_eq_some_iff, hsome]
  · have hset : f.keys.toFinset = history.keys.toFinset := by
      ext key
      rw [List.mem_toFinset, List.mem_toFinset, hkeys]
    have hnodup : f.keys.Nodup := f.nodup
    rw [← hset, List.toFinset_card_of_nodup hnodup, keys, List.length_map, size]

theorem Records.get?_eq (h : Records history f) (key : String) :
    f.get? key = Keyed.find? key history.reverse :=
  Option.ext fun value => (h.get?_eq_some_iff key value).trans
    History.find?_reverse_eq_some_iff.symm

/-- **A history is recorded in one way only.** -/
theorem Records.eq (hf : Records history f) (hg : Records history g) : f = g := by
  have hirrefl : Std.Irrefl history.IsSetBefore :=
    ⟨fun _ => Nat.lt_irrefl _⟩
  have hantisymm : Std.Antisymm history.IsSetBefore :=
    ⟨fun _ _ hab hba => absurd hab (Nat.lt_asymm hba)⟩
  have hkeys : f.keys = g.keys := hf.ordered.eq_of_mem_iff hg.ordered fun key =>
    (hf.mem_keys_iff key).trans (hg.mem_keys_iff key).symm
  exact ext_toList (Keyed.eq_of_find?_eq hkeys f.nodup fun key _ =>
    (hf.get?_eq key).trans (hg.get?_eq key).symm)

/-! ## What may happen to filters -/

theorem records_empty : Records [] empty := .of_get? List.Pairwise.nil fun _ => rfl

/-- **Setting a key is recorded.** -/
theorem Records.insert (h : Records history f) (key : String) (value : Literal) :
    Records (history ++ [(key, value)]) (f.insert key value) := by
  -- the keys that were there were set before and keep their first places
  have hbefore : f.keys.Pairwise (History.IsSetBefore (history ++ [(key, value)])) :=
    h.ordered.imp_of_mem fun {a b} ha hb hab =>
      hab.append ((h.mem_keys_iff a).1 ha) ((h.mem_keys_iff b).1 hb) _
  refine .of_get? ?_ fun k => ?_
  · rw [keys_insert]
    split_ifs with hkey
    · exact hbefore
    · refine List.pairwise_append.2 ⟨hbefore, List.pairwise_singleton _ _, fun a ha b hb => ?_⟩
      obtain rfl := List.mem_singleton.1 hb
      rw [h.mem_keys_iff] at ha hkey
      exact History.isSetBefore_concat ha hkey value
  · rw [get?_insert, h.get?_eq, List.reverse_append]
    rfl

/-- **Leaving out predicates is recorded**, with what was set for the keys that stay. -/
theorem Records.filter (h : Records history f) (keep : String → Literal → Bool) :
    Records (history.about (f.filter keep).keys) (f.filter keep) := by
  refine .of_get? ?_ fun key => ?_
  · have hsublist : (f.filter keep).keys.Sublist f.keys :=
      (toList_filter_sublist f keep).map Prod.fst
    exact (h.ordered.sublist hsublist).imp_of_mem fun {a b} ha _ hab => hab.about ha
  · rw [get?_filter, h.get?_eq, History.find?_reverse_about]

/-- How filters come about, and their history. -/
inductive Made : History → Filters → Prop
  | empty : Made [] empty
  | insert {history : History} {f : Filters} (h : Made history f) (key : String)
    (value : Literal) : Made (history ++ [(key, value)]) (f.insert key value)
  | ofList (pairs : History) : Made pairs (ofList pairs)
  | filter {history : History} {f : Filters} (h : Made history f)
    (keep : String → Literal → Bool) :
    Made (history.about (f.filter keep).keys) (f.filter keep)

/-- Setting all keys of a list is setting one after another. -/
theorem records_ofList (pairs : History) : Records pairs (ofList pairs) := by
  induction pairs using List.reverseRecOn with
  | nil => exact records_empty
  | append_singleton pairs p ih =>
    have hlast : ofList (pairs ++ [p]) = (ofList pairs).insert p.1 p.2 := by
      rw [ofList, List.foldl_append]
      rfl
    rw [hlast]
    exact ih.insert p.1 p.2

/-- **Filters record their history.** -/
theorem records_of_made (h : Made history f) : Records history f := by
  induction h with
  | empty => exact records_empty
  | insert _ key value ih => exact ih.insert key value
  | ofList pairs => exact records_ofList pairs
  | filter _ keep ih => exact ih.filter keep

/-! ## Taking filters apart -/

/-- No key is on both sides. -/
theorem disjoint_keys (f : Filters) (keep : String → Literal → Bool) :
    (f.filter keep).keys.Disjoint (f.filter fun key value => !keep key value).keys := by
  intro key hkept hrest
  obtain ⟨v, hv⟩ := Keyed.mem_keys_iff.1 hkept
  obtain ⟨w, hw⟩ := Keyed.mem_keys_iff.1 hrest
  obtain ⟨hvmem, hvkeep⟩ := mem_filter_iff.1 (Keyed.mem_of_find? hv)
  obtain ⟨hwmem, hwkeep⟩ := mem_filter_iff.1 (Keyed.mem_of_find? hw)
  have hvw : some v = some w :=
    (get?_eq_some_iff.2 hvmem).symm.trans (get?_eq_some_iff.2 hwmem)
  obtain rfl := Option.some.inj hvw
  rw [hvkeep] at hwkeep
  exact absurd hwkeep (by decide)

/-- **A key is looked up on one side and, if it is not there, on the other.** -/
theorem get?_partition (f : Filters) (keep : String → Literal → Bool) (key : String) :
    f.get? key = ((f.filter keep).get? key).or
      ((f.filter fun key value => !keep key value).get? key) := by
  cases hvalue : f.get? key with
  | none =>
    have hkept : (f.filter keep).get? key = none := by rw [get?_filter, hvalue, ite_self]
    rw [hkept, get?_filter, hvalue, ite_self]
    rfl
  | some value =>
    have hmem := get?_eq_some_iff.1 hvalue
    cases hkeep : keep key value with
    | true =>
      rw [get?_eq_some_iff.2 (mem_filter_iff.2 ⟨hmem, hkeep⟩)]
      rfl
    | false =>
      have hrest : (key, value) ∈ (f.filter fun key value => !keep key value).toList :=
        mem_filter_iff.2 ⟨hmem, by rw [hkeep]; rfl⟩
      have hkept : key ∉ (f.filter keep).keys := fun hkey =>
        disjoint_keys f keep hkey (List.mem_map.2 ⟨_, hrest, rfl⟩)
      rw [get?_eq_none_iff.2 hkept, get?_eq_some_iff.2 hrest]
      rfl

/-- **Filters are ordered maps, whatever their history.**  They record it, and nothing else does:
the keys that were ever set, each once, in the order in which they were first set, each with the
literal that was set for it last, which is also what is found under it; nothing is found under other
keys, and there are as many predicates as different keys.  A test takes them apart into those that
pass and those that fail, in the same order; both record what was set for their keys, they have no
key in common, and what is found under any key is what is found on the one side or else on the
other. -/
theorem records_and_partition_of_made (h : Made history f) :
    Records history f ∧ (∀ g, Records history g → g = f) ∧
      ∀ keep kept rest, f.partition keep = (kept, rest) →
        Records (history.about kept.keys) kept ∧ Records (history.about rest.keys) rest ∧
          kept.keys.Disjoint rest.keys ∧
          kept.toList.Sublist f.toList ∧ rest.toList.Sublist f.toList ∧
          (∀ p, p ∈ kept.toList ↔ p ∈ f.toList ∧ keep p.1 p.2 = true) ∧
          (∀ p, p ∈ rest.toList ↔ p ∈ f.toList ∧ keep p.1 p.2 = false) ∧
          ∀ key, f.get? key = (kept.get? key).or (rest.get? key) := by
  have hf := records_of_made h
  refine ⟨hf, fun g hg => hg.eq hf, ?_⟩
  rintro keep _ _ ⟨rfl, rfl⟩
  refine ⟨hf.filter keep, hf.filter _, disjoint_keys f keep, toList_filter_sublist f keep,
    toList_filter_sublist f _, fun p => mem_filter_iff, fun p => ?_, get?_partition f keep⟩
  rw [mem_filter_iff, Bool.not_eq_true']

/-- One key set twice, with another in between and a third after it. -/
def twiceSet : Filters :=
  ((ofList [("a", .int 1), ("b", .int 2)]).insert "a" (.int 3)).insert "c" (.int 2)

/-- The first literal of the key that is set twice is gone, and its place is not.  Of the history
nothing but the twos is left with those that are two. -/
theorem records_and_partition_twiceSet :
    Made [("a", .int 1), ("b", .int 2), ("a", .int 3), ("c", .int 2)] twiceSet ∧
      twiceSet.toList = [("a", .int 3), ("b", .int 2), ("c", .int 2)] ∧
      Records [("a", .int 1), ("b", .int 2), ("a", .int 3), ("c", .int 2)] twiceSet ∧
      Records [("b", .int 2), ("c", .int 2)] (twiceSet.filter fun _ v => v = .int 2) ∧
      Records [("a", .int 1), ("a", .int 3)] (twiceSet.filter fun _ v => !decide (v = .int 2)) ∧
      ∀ key, twiceSet.get? key = ((twiceSet.filter fun _ v => v = .int 2).get? key).or
        ((twiceSet.filter fun _ v => !decide (v = .int 2)).get? key) := by
  have hmade : Made [("a", .int 1), ("b", .int 2), ("a", .int 3), ("c", .int 2)] twiceSet :=
    ((Made.ofList [("a", .int 1), ("b", .int 2)]).insert "a" (.int 3)).insert "c" (.int 2)
  obtain ⟨hrecords, -, hpartition⟩ := records_and_partition_of_made hmade
  obtain ⟨htwos, hothers, -, -, -, -, -, hget⟩ :=
    hpartition (fun _ v => decide (v = .int 2)) _ _ rfl
  exact ⟨hmade, by decide +kernel, hrecords, htwos, hothers, hget⟩

end Filters
end Arbor

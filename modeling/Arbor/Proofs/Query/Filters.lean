/-
# Filters as lists

Two filters with the same list are the same (`ext_toList`).  A key that is new goes to the end
(`toList_insert_of_not_mem`) and the others stay in their places (`keys_insert`); what was set is
found (`get?_insert`).  Predicates that pass a test are found as before (`get?_filter`), and what is
left when they are taken out is nothing exactly if all pass (`filter_not_eq_empty_iff`).
-/

import Arbor.Proofs.Keyed
import Arbor.Query.Filters

namespace Arbor
namespace Filters

theorem ext_toList {f g : Filters} (h : f.toList = g.toList) : f = g := by
  cases f
  cases g
  cases h
  rfl

theorem isEmpty_iff {f : Filters} : f.isEmpty = true ↔ f = empty := by
  rw [isEmpty, List.isEmpty_iff]
  exact ⟨fun h => ext_toList h, fun h => by rw [h]; rfl⟩

theorem upsert_of_not_mem {key : String} {value : Literal} {l : List (String × Literal)}
    (h : key ∉ l.map Prod.fst) : upsert key value l = l ++ [(key, value)] := by
  induction l with
  | nil => rfl
  | cons e rest ih =>
    obtain ⟨k, v⟩ := e
    rw [List.map_cons, List.mem_cons, not_or] at h
    rw [upsert, if_neg fun e => h.1 e.symm, ih h.2, List.cons_append]

/-- A new key goes to the end. -/
theorem toList_insert_of_not_mem {f : Filters} {key : String} {value : Literal}
    (h : key ∉ f.keys) : (f.insert key value).toList = f.toList ++ [(key, value)] :=
  upsert_of_not_mem h

theorem get?_isSome_iff {f : Filters} {key : String} :
    (f.get? key).isSome = true ↔ key ∈ f.keys :=
  Keyed.find?_isSome_iff

theorem get?_eq_none_iff {f : Filters} {key : String} : f.get? key = none ↔ key ∉ f.keys := by
  rw [← get?_isSome_iff, Option.not_isSome_iff_eq_none]

/-- What is found under a key are the predicates. -/
theorem get?_eq_some_iff {f : Filters} {key : String} {value : Literal} :
    f.get? key = some value ↔ (key, value) ∈ f.toList :=
  ⟨Keyed.mem_of_find?, Keyed.find?_of_mem f.nodup⟩

/-- A key that is set again keeps its place, and a new one goes to the end. -/
theorem keys_insert (f : Filters) (key : String) (value : Literal) :
    (f.insert key value).keys = if key ∈ f.keys then f.keys else f.keys ++ [key] :=
  keys_upsert key value f.toList

/-- **What is set is found, and nothing else changes.** -/
theorem get?_insert (f : Filters) (key : String) (value : Literal) (k : String) :
    (f.insert key value).get? k = if key = k then some value else f.get? k := by
  show Keyed.find? k (upsert key value f.toList) = _
  rw [get?]
  induction f.toList with
  | nil => rfl
  | cons e rest ih =>
    obtain ⟨first, v⟩ := e
    rw [upsert]
    by_cases hfirst : first = key
    · subst hfirst
      rw [if_pos rfl, Keyed.find?, Keyed.find?]
      split_ifs <;> rfl
    · rw [if_neg hfirst, Keyed.find?, Keyed.find?, ih]
      by_cases hk : key = k
      · subst hk
        rw [if_pos rfl, if_neg hfirst, if_pos rfl]
      · rw [if_neg hk, if_neg hk]

theorem mem_filter_iff {f : Filters} {keep : String → Literal → Bool} {p : String × Literal} :
    p ∈ (f.filter keep).toList ↔ p ∈ f.toList ∧ keep p.1 p.2 = true :=
  List.mem_filter

theorem toList_filter_sublist (f : Filters) (keep : String → Literal → Bool) :
    (f.filter keep).toList.Sublist f.toList :=
  List.filter_sublist

/-- **Predicates that pass a test are found as before.** -/
theorem get?_filter (f : Filters) (keep : String → Literal → Bool) (key : String) :
    (f.filter keep).get? key = if key ∈ (f.filter keep).keys then f.get? key else none := by
  split_ifs with hkey
  · obtain ⟨value, hvalue⟩ := Keyed.mem_keys_iff.1 hkey
    have hfound : (f.filter keep).get? key = some value := hvalue
    rw [hfound, get?_eq_some_iff.2 (mem_filter_iff.1 (get?_eq_some_iff.1 hfound)).1]
  · exact get?_eq_none_iff.2 hkey

theorem filter_filter (f : Filters) (keep : String → Literal → Bool) :
    (f.filter keep).filter keep = f.filter keep :=
  ext_toList (by simp [filter, List.filter_filter])

theorem filter_eq_self_iff {f : Filters} {keep : String → Literal → Bool} :
    f.filter keep = f ↔ ∀ p ∈ f.toList, keep p.1 p.2 = true := by
  rw [← List.filter_eq_self]
  exact ⟨congrArg toList, fun h => ext_toList h⟩

/-- Nothing fails a test exactly if all predicates pass it. -/
theorem filter_not_eq_empty_iff {f : Filters} {keep : String → Literal → Bool} :
    (f.filter fun key value => !keep key value) = empty ↔
      ∀ p ∈ f.toList, keep p.1 p.2 = true := by
  have h : (f.filter fun key value => !keep key value) = empty ↔
      (f.toList.filter fun p => !keep p.1 p.2) = [] :=
    ⟨congrArg toList, fun h => ext_toList h⟩
  rw [h, List.filter_eq_nil_iff]
  simp

end Filters
end Arbor

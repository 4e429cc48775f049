/-
# Lists of entries

An entry that is set is the one that is found, and the others are found as before
(`find?_insert`), so of entries in any order the last with a key is the one that counts
(`find?_ofList`).  Of several with one key the first is found (`find?_eq_some_iff`).  Keys that
ascend stay ascending (`ascending_insert`), and entries whose keys ascend are in order already
(`ofList_of_ascending`).  Entries with the same keys in the same order, each once, are the same if
the same is found under every key (`eq_of_find?_eq`).
-/

import Arbor.Json.Basic
import Mathlib.Data.List.Induction
import Mathlib.Data.String.Basic

namespace Arbor
namespace Keyed

variable {α : Type} {key : String} {value : α} {entries : List (String × α)}

/-! ## Keys -/

theorem find?_isSome_iff : (find? key entries).isSome = true ↔ key ∈ entries.map Prod.fst := by
  induction entries with
  | nil => simp [find?]
  | cons e rest ih =>
    obtain ⟨k, v⟩ := e
    by_cases h : k = key
    · simp [find?, h]
    · have h' : key ≠ k := fun e => h e.symm
      rw [find?, if_neg h, ih, List.map_cons, List.mem_cons]
      simp [h']

theorem mem_keys_iff : key ∈ entries.map Prod.fst ↔ ∃ value, find? key entries = some value := by
  rw [← find?_isSome_iff, Option.isSome_iff_exists]

theorem mem_of_find? (h : find? key entries = some value) : (key, value) ∈ entries := by
  induction entries with
  | nil => exact absurd h (by simp [find?])
  | cons e rest ih =>
    obtain ⟨k, v⟩ := e
    rw [find?] at h
    split_ifs at h with hk
    · rw [hk, Option.some.inj h]
      exact List.mem_cons_self
    · exact List.mem_cons_of_mem _ (ih h)

theorem Ascending.nodup (h : Ascending entries) : (entries.map Prod.fst).Nodup :=
  List.Pairwise.imp ne_of_lt h

/-- An entry is found by its key if no other has the key. -/
theorem find?_of_mem (hnodup : (entries.map Prod.fst).Nodup) (h : (key, value) ∈ entries) :
    find? key entries = some value := by
  induction entries with
  | nil => exact absurd h List.not_mem_nil
  | cons e rest ih =>
    obtain ⟨k, v⟩ := e
    obtain ⟨hnew, hnodup⟩ := List.nodup_cons.1 hnodup
    rcases List.mem_cons.1 h with heq | h
    · obtain ⟨rfl, rfl⟩ := Prod.mk.inj heq
      exact if_pos rfl
    · have hne : k ≠ key := by
        rintro rfl
        exact hnew (List.mem_map.2 ⟨_, h, rfl⟩)
      rw [find?, if_neg hne]
      exact ih hnodup h

/-- What is not found in the first of two lists is looked for in the second. -/
theorem find?_append (key : String) (entries rest : List (String × α)) :
    find? key (entries ++ rest) = (find? key entries).or (find? key rest) := by
  induction entries with
  | nil => rfl
  | cons e entries ih =>
    rw [List.cons_append, find?, find?, ih]
    split_ifs <;> rfl

/-- What is found is the value of the first entry with the key. -/
theorem find?_eq_some_iff :
    find? key entries = some value ↔
      ∃ before after, entries = before ++ (key, value) :: after ∧
        key ∉ before.map Prod.fst := by
  constructor
  · intro h
    induction entries with
    | nil => exact absurd h (by simp [find?])
    | cons e rest ih =>
      obtain ⟨k, v⟩ := e
      rw [find?] at h
      split_ifs at h with hk
      · obtain rfl := Option.some.inj h
        exact ⟨[], rest, by rw [hk]; rfl, List.not_mem_nil⟩
      · obtain ⟨before, after, rfl, hbefore⟩ := ih h
        refine ⟨(k, v) :: before, after, rfl, ?_⟩
        rw [List.map_cons, List.mem_cons, not_or]
        exact ⟨Ne.symm hk, hbefore⟩
  · rintro ⟨before, after, rfl, hbefore⟩
    induction before with
    | nil => exact if_pos rfl
    | cons e rest ih =>
      rw [List.map_cons, List.mem_cons, not_or] at hbefore
      rw [List.cons_append, find?, if_neg (Ne.symm hbefore.1)]
      exact ih hbefore.2

/-- Entries that are left out by their keys are not found, and the others are found as before. -/
theorem find?_filter_key (keep : String → Bool) (key : String) (entries : List (String × α)) :
    find? key (entries.filter fun e => keep e.1) =
      if keep key then find? key entries else none := by
  induction entries with
  | nil => simp [find?]
  | cons e rest ih =>
    obtain ⟨k, v⟩ := e
    rw [List.filter_cons, find?]
    by_cases hk : k = key
    · subst hk
      rw [if_pos rfl]
      by_cases hkeep : keep k = true
      · rw [if_pos hkeep, if_pos hkeep, find?, if_pos rfl]
      · rw [if_neg hkeep, if_neg hkeep, ih, if_neg hkeep]
    · rw [if_neg hk, ← ih]
      split_ifs
      · rw [find?, if_neg hk]
      · rfl

/-- Entries with the same keys, each once, and with the same values are the same. -/
theorem eq_of_find?_eq {l l' : List (String × α)}
    (hkeys : l.map Prod.fst = l'.map Prod.fst) (hnodup : (l.map Prod.fst).Nodup)
    (h : ∀ key ∈ l.map Prod.fst, find? key l = find? key l') : l = l' := by
  induction l generalizing l' with
  | nil => exact (List.map_eq_nil_iff.1 hkeys.symm).symm
  | cons p rest ih =>
    obtain ⟨key, value⟩ := p
    obtain ⟨⟨key', value'⟩, rest', rfl, hkey, hrest⟩ := List.map_eq_cons_iff.1 hkeys.symm
    obtain rfl : key' = key := hkey
    obtain ⟨hnew, hnodup⟩ := List.nodup_cons.1 hnodup
    have hvalue : value = value' := by
      have hfirst := h key' List.mem_cons_self
      rw [find?, find?, if_pos rfl, if_pos rfl] at hfirst
      exact Option.some.inj hfirst
    have hothers : ∀ other ∈ rest.map Prod.fst, find? other rest = find? other rest' := by
      intro other hmem
      have hne : key' ≠ other := by
        rintro rfl
        exact hnew hmem
      have hother := h other (List.mem_cons_of_mem _ hmem)
      rwa [find?, find?, if_neg hne, if_neg hne] at hother
    rw [hvalue, ih hrest.symm hnodup hothers]

/-! ## Setting an entry -/

/-- **What is set is found, and nothing else changes.** -/
theorem find?_insert (k key : String) (value : α) (entries : List (String × α)) :
    find? k (insert key value entries) = if key = k then some value else find? k entries := by
  induction entries with
  | nil => rfl
  | cons e rest ih =>
    obtain ⟨first, v⟩ := e
    rw [insert]
    by_cases hlt : key < first
    · rw [if_pos hlt, find?]
    · rw [if_neg hlt]
      by_cases heq : key = first
      · subst heq
        rw [if_pos rfl, find?, find?]
        split_ifs <;> rfl
      · rw [if_neg heq, find?, find?, ih]
        by_cases hk : key = k
        · rw [if_pos hk, if_pos hk, if_neg fun h => heq (hk.trans h.symm)]
        · rw [if_neg hk, if_neg hk]

theorem mem_keys_insert {k : String} :
    k ∈ (insert key value entries).map Prod.fst ↔ k = key ∨ k ∈ entries.map Prod.fst := by
  rw [← find?_isSome_iff, ← find?_isSome_iff, find?_insert]
  by_cases h : key = k
  · simp [h]
  · simp [h, Ne.symm h]

/-- An entry goes to its place. -/
theorem ascending_insert (h : Ascending entries) : Ascending (insert key value entries) := by
  induction entries with
  | nil => exact List.pairwise_singleton _ _
  | cons e rest ih =>
    obtain ⟨first, v⟩ := e
    obtain ⟨hfirst, hrest⟩ := List.pairwise_cons.1 h
    rw [insert]
    split_ifs with hlt heq
    · refine List.pairwise_cons.2 ⟨List.forall_mem_cons.2 ⟨hlt, fun k hk => ?_⟩, h⟩
      exact hlt.trans (hfirst k hk)
    · subst heq
      exact h
    · refine List.pairwise_cons.2 ⟨fun k hk => ?_, ih hrest⟩
      rcases mem_keys_insert.1 hk with rfl | hk
      · exact lt_of_le_of_ne (not_lt.1 hlt) (Ne.symm heq)
      · exact hfirst k hk

/-! ## Entries in any order -/

theorem ofList_concat (entries : List (String × α)) (e : String × α) :
    ofList (entries ++ [e]) = insert e.1 e.2 (ofList entries) := by
  rw [ofList, List.foldl_append]
  rfl

/-- **The last entry of a key is the one that counts.** -/
theorem find?_ofList (key : String) (entries : List (String × α)) :
    find? key (ofList entries) = find? key entries.reverse := by
  induction entries using List.reverseRecOn with
  | nil => rfl
  | append_singleton entries e ih =>
    obtain ⟨k, v⟩ := e
    rw [ofList_concat, find?_insert, ih, List.reverse_append]
    rfl

/-- The same is found among the entries themselves if every key occurs once. -/
theorem find?_ofList_of_nodup (h : (entries.map Prod.fst).Nodup) (key : String) :
    find? key (ofList entries) = find? key entries := by
  rw [find?_ofList]
  have hreverse : (entries.reverse.map Prod.fst).Nodup := by
    rw [List.map_reverse]
    exact List.pairwise_reverse.2 (h.imp Ne.symm)
  by_cases hkey : key ∈ entries.map Prod.fst
  · obtain ⟨⟨_, value⟩, hmem, rfl⟩ := List.mem_map.1 hkey
    rw [find?_of_mem h hmem, find?_of_mem hreverse (List.mem_reverse.2 hmem)]
  · have hkey' : key ∉ entries.reverse.map Prod.fst := by
      rwa [List.map_reverse, List.mem_reverse]
    rw [← find?_isSome_iff, Option.not_isSome_iff_eq_none] at hkey hkey'
    rw [hkey, hkey']

theorem ascending_ofList (entries : List (String × α)) : Ascending (ofList entries) := by
  induction entries using List.reverseRecOn with
  | nil => exact List.Pairwise.nil
  | append_singleton entries e ih =>
    rw [ofList_concat]
    exact ascending_insert ih

theorem insert_of_forall_lt (h : ∀ k ∈ entries.map Prod.fst, k < key) :
    insert key value entries = entries ++ [(key, value)] := by
  induction entries with
  | nil => rfl
  | cons e rest ih =>
    obtain ⟨k, v⟩ := e
    obtain ⟨hk, hrest⟩ := List.forall_mem_cons.1 h
    rw [insert, if_neg (lt_asymm hk), if_neg hk.ne', ih hrest, List.cons_append]

/-- Entries that are in order stay as they are. -/
theorem ofList_of_ascending (h : Ascending entries) : ofList entries = entries := by
  induction entries using List.reverseRecOn with
  | nil => rfl
  | append_singleton entries e ih =>
    rw [Ascending, List.map_append, List.pairwise_append] at h
    obtain ⟨hentries, -, hlast⟩ := h
    rw [ofList_concat, ih hentries]
    exact insert_of_forall_lt fun k hk => hlast k hk e.1 (by simp)

/-! ## Values of entries -/

theorem find?_map {β : Type} (f : α → β) (key : String) (entries : List (String × α)) :
    find? key (entries.map fun e => (e.1, f e.2)) = (find? key entries).map f := by
  induction entries with
  | nil => rfl
  | cons e rest ih =>
    rw [List.map_cons, find?, find?, ih]
    split <;> rfl

end Keyed
end Arbor

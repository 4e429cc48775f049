/-
# Filters

`Filters` in `query/segment`, with `insert`, `get`, `partition` and `from_iter`.

The equality predicates of one segment: keys with literals, each key once, in the order in which the
keys were first set.  Setting a key again replaces its literal in place.
-/

import Arbor.Literal.Basic

namespace Arbor

/-- Predicates by key, in the order of first insertion. -/
structure Filters where
  /-- The predicates in order. -/
  toList : List (String × Literal)
  /-- No key occurs twice. -/
  nodup : (toList.map Prod.fst).Nodup
deriving DecidableEq

namespace Filters

/-- Sets the literal of a key in a list of predicates. -/
def upsert (key : String) (value : Literal) : List (String × Literal) → List (String × Literal)
  | [] => [(key, value)]
  | (k, v) :: rest => if k = key then (k, value) :: rest else (k, v) :: upsert key value rest

/-- Setting a key leaves the keys as they are if it is among them, and adds it at the end if not. -/
theorem keys_upsert (key : String) (value : Literal) (l : List (String × Literal)) :
    (upsert key value l).map Prod.fst =
      if key ∈ l.map Prod.fst then l.map Prod.fst else l.map Prod.fst ++ [key] := by
  induction l with
  | nil => simp [upsert]
  | cons e rest ih =>
    obtain ⟨k, v⟩ := e
    by_cases h : k = key
    · simp [upsert, h]
    · have h' : key ≠ k := fun e => h e.symm
      simp only [upsert, if_neg h, List.map_cons, ih, List.mem_cons, h', false_or]
      split <;> simp

theorem nodup_upsert {key : String} {value : Literal} {l : List (String × Literal)}
    (h : (l.map Prod.fst).Nodup) : ((upsert key value l).map Prod.fst).Nodup := by
  rw [keys_upsert]
  split
  · exact h
  · next hk =>
    exact List.nodup_append.2 ⟨h, by simp, fun a ha b hb => by
      rintro rfl
      exact hk (by simp only [List.mem_singleton] at hb; exact hb ▸ ha)⟩

/-- No predicates. -/
def empty : Filters := ⟨[], by simp⟩

instance : Inhabited Filters := ⟨empty⟩

/-- Sets the literal of a key. -/
def insert (filters : Filters) (key : String) (value : Literal) : Filters :=
  ⟨upsert key value filters.toList, nodup_upsert filters.nodup⟩

/-- The filters that pairs give when they are inserted one after another. -/
def ofList (pairs : List (String × Literal)) : Filters :=
  pairs.foldl (fun filters p => filters.insert p.1 p.2) empty

/-- The literal of a key. -/
def get? (filters : Filters) (key : String) : Option Literal := Keyed.find? key filters.toList

def size (filters : Filters) : Nat := filters.toList.length

def isEmpty (filters : Filters) : Bool := filters.toList.isEmpty

/-- The keys in order. -/
def keys (filters : Filters) : List String := filters.toList.map Prod.fst

/-- The predicates that pass a test. -/
def filter (filters : Filters) (keep : String → Literal → Bool) : Filters :=
  ⟨filters.toList.filter fun p => keep p.1 p.2,
    filters.nodup.sublist (List.filter_sublist.map Prod.fst)⟩

/-- The predicates that pass a test, and the others. -/
def partition (filters : Filters) (keep : String → Literal → Bool) : Filters × Filters :=
  (filters.filter keep, filters.filter fun key value => !keep key value)

/-- The JSON form: a list of pairs under `entries`. -/
def toJson (filters : Filters) : Json :=
  .obj [("entries", .arr (filters.toList.map fun p => .arr [.str p.1, p.2.toJson]))]

end Filters
end Arbor

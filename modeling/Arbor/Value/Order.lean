/-
# The order of values

The orders of `Float`, `PlainValue` and `WireValue` in `core/value`.

Values are ordered by kind, in the order of the ids, and within a kind field by field.  Plain values
are ordered by variant (booleans, integers, doubles, texts, lists, maps), texts by code point, lists
and maps item by item, a proper beginning first; an entry counts by key, then by value.  Doubles
follow their `rank`, so every bit pattern has its place.

Two values compare equal exactly when they are the same (`Plain.cmp_eq_iff`), which decides
equality.

`partialCmp?` compares by steps each of which may have no answer; the first step that does not find
its two sides equal decides.
-/

import Arbor.Value.Basic

namespace Arbor

/-! ## Comparisons that may have no answer -/

/-- A step of a comparison, and the next one where the step finds no difference. -/
def thenPartial : Option Ordering → Option Ordering → Option Ordering
  | some .eq, next => next
  | step, _ => step

/-- The order of lists, item by item. -/
def partialLex {α : Type} (step : α → α → Option Ordering) : List α → List α → Option Ordering
  | [], [] => some .eq
  | [], _ :: _ => some .lt
  | _ :: _, [] => some .gt
  | a :: as, b :: bs => thenPartial (step a b) (partialLex step as bs)

/-! ## Doubles -/

namespace Binary64

/-- The order of doubles, which leaves no pair out. -/
def partialCmp? (x y : Binary64) : Option Ordering := some (compare x y)

theorem rank_inj {x y : Binary64} (h : x.rank = y.rank) : x = y := by
  obtain ⟨x⟩ := x
  obtain ⟨y⟩ := y
  have hx := x.toNat_lt
  have hy := y.toNat_lt
  simp only [rank, isNegative, magnitude, decide_eq_true_eq] at h
  have : x.toNat = y.toNat := by split at h <;> split at h <;> omega
  rw [UInt64.toNat_inj.1 this]

theorem compare_eq_iff {x y : Binary64} : compare x y = .eq ↔ x = y :=
  (Std.compare_eq_iff_eq (a := x.rank) (b := y.rank)).trans ⟨rank_inj, fun h => h ▸ rfl⟩

end Binary64

/-! ## Plain values -/

namespace Plain

/-- The place of a variant. -/
def variant : Plain → Nat
  | .bool _ => 0
  | .int _ => 1
  | .double _ => 2
  | .text _ => 3
  | .list _ => 4
  | .map _ => 5

mutual

/-- The order of plain values. -/
def cmp : Plain → Plain → Ordering
  | .bool a, .bool b => compare a b
  | .int a, .int b => compare a b
  | .double a, .double b => compare a b
  | .text a, .text b => compare a b
  | .list a, .list b => cmpItems a b
  | .map a, .map b => cmpEntries a b
  | a, b => compare a.variant b.variant

/-- The order of lists, item by item. -/
def cmpItems : List Plain → List Plain → Ordering
  | [], [] => .eq
  | [], _ :: _ => .lt
  | _ :: _, [] => .gt
  | a :: as, b :: bs => (cmp a b).then (cmpItems as bs)

/-- The order of maps, entry by entry. -/
def cmpEntries : List (String × Plain) → List (String × Plain) → Ordering
  | [], [] => .eq
  | [], _ :: _ => .lt
  | _ :: _, [] => .gt
  | (k, a) :: as, (l, b) :: bs => ((compare k l).then (cmp a b)).then (cmpEntries as bs)

end

mutual

theorem cmp_eq_iff : ∀ a b : Plain, cmp a b = .eq ↔ a = b
  | .bool a, b => by cases b <;> simp [cmp, variant]
  | .int a, b => by cases b <;> simp [cmp, variant]
  | .double a, b => by
    cases b <;> simp [cmp, variant, Binary64.compare_eq_iff]
  | .text a, b => by cases b <;> simp [cmp, variant]
  | .list a, b => by
    cases b with
    | list b => simpa [cmp] using cmpItems_eq_iff a b
    | _ => simp [cmp, variant]
  | .map a, b => by
    cases b with
    | map b => simpa [cmp] using cmpEntries_eq_iff a b
    | _ => simp [cmp, variant]

theorem cmpItems_eq_iff : ∀ a b : List Plain, cmpItems a b = .eq ↔ a = b
  | [], b => by cases b <;> simp [cmpItems]
  | a :: as, b => by
    cases b with
    | nil => simp [cmpItems]
    | cons b bs =>
      simp [cmpItems, Ordering.then_eq_eq, cmp_eq_iff a b, cmpItems_eq_iff as bs]

theorem cmpEntries_eq_iff : ∀ a b : List (String × Plain), cmpEntries a b = .eq ↔ a = b
  | [], b => by cases b <;> simp [cmpEntries]
  | (k, a) :: as, b => by
    cases b with
    | nil => simp [cmpEntries]
    | cons e bs =>
      obtain ⟨l, b⟩ := e
      simp [cmpEntries, Ordering.then_eq_eq, cmp_eq_iff a b, cmpEntries_eq_iff as bs]

end

instance : Ord Plain := ⟨cmp⟩

mutual

/-- The order of plain values, step by step. -/
def partialCmp? : Plain → Plain → Option Ordering
  | .bool a, .bool b => some (compare a b)
  | .int a, .int b => some (compare a b)
  | .double a, .double b => a.partialCmp? b
  | .text a, .text b => some (compare a b)
  | .list a, .list b => partialCmpItems? a b
  | .map a, .map b => partialCmpEntries? a b
  | a, b => some (compare a.variant b.variant)

/-- The order of lists, step by step. -/
def partialCmpItems? : List Plain → List Plain → Option Ordering
  | [], [] => some .eq
  | [], _ :: _ => some .lt
  | _ :: _, [] => some .gt
  | a :: as, b :: bs => thenPartial (partialCmp? a b) (partialCmpItems? as bs)

/-- The order of maps, step by step. -/
def partialCmpEntries? : List (String × Plain) → List (String × Plain) → Option Ordering
  | [], [] => some .eq
  | [], _ :: _ => some .lt
  | _ :: _, [] => some .gt
  | (k, a) :: as, (l, b) :: bs =>
    thenPartial (thenPartial (some (compare k l)) (partialCmp? a b)) (partialCmpEntries? as bs)

end

instance : DecidableEq Plain := fun a b => decidable_of_iff _ (cmp_eq_iff a b)

end Plain

deriving instance DecidableEq for Value

/-! ## Values -/

namespace Value

/-- The order of values. -/
def cmp : Value → Value → Ordering
  | .plain a, .plain b => a.cmp b
  | a, b => (compare a.kind.id b.kind.id).then (compare a.fields b.fields)

instance : Ord Value := ⟨cmp⟩

/-- The order of values, step by step. -/
def partialCmp? : Value → Value → Option Ordering
  | .plain a, .plain b => a.partialCmp? b
  | a, b => thenPartial (some (compare a.kind.id b.kind.id))
      (partialLex (fun i j => some (compare i j)) a.fields b.fields)

end Value
end Arbor

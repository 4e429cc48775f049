/-
# The order of values is total

Any two values compare, the other way round with the opposite answer, and answers carry over from
one pair to the next (`isTotalOrder_cmp`).  Two values compare equal only if they are the same, so
the doubles are told apart by all their bits: every NaN equals itself, and the zeros differ.

The argument goes up from doubles to plain values to values.

- Doubles lie on a line of integers (`Binary64.rank`).
- Plain values come first by variant: where two of them differ in it, it decides
  (`Plain.cmp_of_variant_lt`, `Plain.variant_le_of_cmp`).  What is left is an induction over the
  items of lists and maps, one step of which is `then_lt_trans`.
- Values come first by kind, in the same way.

That nothing compares equal but what is the same makes the order of one step after another
transitive: a step that finds no difference can be taken out.
-/

import Arbor.Value.Order

namespace Arbor

/-! ## One step after another -/

section Steps

variable {α : Type} {f : α → α → Ordering}

theorem compare_lt_trans [Ord α] [Std.TransOrd α] {a b c : α} :
    compare a b = .lt → compare b c = .lt → compare a c = .lt :=
  Std.TransCmp.lt_trans

/-- Where a step carries over and what comes after it does, so do both. -/
theorem then_lt_trans [Std.LawfulEqCmp f] {a b c : α} {o₁ o₂ o₃ : Ordering}
    (hf : f a b = .lt → f b c = .lt → f a c = .lt) (ho : o₁ = .lt → o₂ = .lt → o₃ = .lt)
    (h₁ : (f a b).then o₁ = .lt) (h₂ : (f b c).then o₂ = .lt) : (f a c).then o₃ = .lt := by
  rw [Ordering.then_eq_lt] at h₁ h₂ ⊢
  rcases h₁ with hab | ⟨hab, ho₁⟩
  · rcases h₂ with hbc | ⟨hbc, -⟩
    · exact Or.inl (hf hab hbc)
    · obtain rfl := Std.LawfulEqCmp.eq_of_compare hbc
      exact Or.inl hab
  · obtain rfl := Std.LawfulEqCmp.eq_of_compare hab
    rcases h₂ with hbc | ⟨hbc, ho₂⟩
    · exact Or.inl hbc
    · exact Or.inr ⟨hbc, ho ho₁ ho₂⟩

/-- Where nothing compares equal but what is the same, it is enough that "less" carries over. -/
theorem transCmp_of_lt_trans [Std.OrientedCmp f] [Std.LawfulEqCmp f]
    (h : ∀ a b c, f a b = .lt → f b c = .lt → f a c = .lt) : Std.TransCmp f where
  isLE_trans {a b c} hab hbc := by
    rw [Ordering.isLE_iff_eq_lt_or_eq_eq] at hab hbc ⊢
    rcases hab with hab | hab
    · rcases hbc with hbc | hbc
      · exact Or.inl (h a b c hab hbc)
      · obtain rfl := Std.LawfulEqCmp.eq_of_compare hbc
        exact Or.inl hab
    · obtain rfl := Std.LawfulEqCmp.eq_of_compare hab
      exact hbc

/-- Steps that have answers have the answer of one after the other. -/
theorem thenPartial_some (o p : Ordering) : thenPartial (some o) (some p) = some (o.then p) := by
  cases o <;> rfl

theorem partialLex_some [Ord α] (as bs : List α) :
    partialLex (fun a b => some (compare a b)) as bs = some (compare as bs) := by
  induction as generalizing bs with
  | nil => cases bs <;> rfl
  | cons a as ih =>
    cases bs with
    | nil => rfl
    | cons b bs => rw [partialLex, ih, thenPartial_some, List.compare_cons_cons]

end Steps

/-! ## Doubles -/

namespace Binary64

instance : Std.LawfulEqOrd Binary64 where
  compare_self := compare_eq_iff.2 rfl
  eq_of_compare := compare_eq_iff.1

instance : Std.TransOrd Binary64 where
  eq_swap {x y} :=
    (Std.OrientedOrd.eq_swap : compare x.rank y.rank = (compare y.rank x.rank).swap)
  isLE_trans {x y z} (hxy : (compare x.rank y.rank).isLE) (hyz : (compare y.rank z.rank).isLE) :=
    (Std.TransOrd.isLE_trans hxy hyz : (compare x.rank z.rank).isLE)

end Binary64

/-! ## Plain values -/

namespace Plain

mutual

theorem cmp_swap : ∀ a b : Plain, cmp a b = (cmp b a).swap
  | .bool x, b => by
    cases b with
    | bool y => exact (Std.OrientedOrd.eq_swap : compare x y = (compare y x).swap)
    | _ => rfl
  | .int x, b => by
    cases b with
    | int y => exact (Std.OrientedOrd.eq_swap : compare x y = (compare y x).swap)
    | _ => rfl
  | .double x, b => by
    cases b with
    | double y => exact (Std.OrientedOrd.eq_swap : compare x y = (compare y x).swap)
    | _ => rfl
  | .text x, b => by
    cases b with
    | text y => exact (Std.OrientedOrd.eq_swap : compare x y = (compare y x).swap)
    | _ => rfl
  | .list as, b => by
    cases b with
    | list bs => exact cmpItems_swap as bs
    | _ => rfl
  | .map as, b => by
    cases b with
    | map bs => exact cmpEntries_swap as bs
    | _ => rfl

theorem cmpItems_swap : ∀ as bs : List Plain, cmpItems as bs = (cmpItems bs as).swap
  | [], bs => by cases bs <;> rfl
  | a :: as, bs => by
    cases bs with
    | nil => rfl
    | cons b bs => rw [cmpItems, cmpItems, Ordering.swap_then, cmp_swap a b, cmpItems_swap as bs]

theorem cmpEntries_swap : ∀ as bs : List (String × Plain),
    cmpEntries as bs = (cmpEntries bs as).swap
  | [], bs => by cases bs <;> rfl
  | (k, a) :: as, bs => by
    cases bs with
    | nil => rfl
    | cons e bs =>
      have hkey : compare k e.1 = (compare e.1 k).swap := Std.OrientedCmp.eq_swap
      rw [cmpEntries, cmpEntries, Ordering.swap_then, Ordering.swap_then, hkey, cmp_swap a e.2,
        cmpEntries_swap as bs]

end

instance : Std.OrientedCmp cmp := ⟨cmp_swap _ _⟩

instance : Std.LawfulEqCmp cmp where
  compare_self := (cmp_eq_iff _ _).2 rfl
  eq_of_compare := (cmp_eq_iff _ _).1

/-- Variants that differ decide. -/
theorem cmp_of_variant_ne {a b : Plain} (h : a.variant ≠ b.variant) :
    cmp a b = compare a.variant b.variant := by
  cases a <;> cases b <;> simp_all [cmp, variant]

theorem variant_le_of_cmp {a b : Plain} (h : cmp a b = .lt) : a.variant ≤ b.variant := by
  rcases Nat.lt_trichotomy a.variant b.variant with hlt | heq | hgt
  · exact Nat.le_of_lt hlt
  · exact Nat.le_of_eq heq
  · rw [cmp_of_variant_ne (by omega), Nat.compare_eq_lt] at h
    omega

/-- So "less" carries over if it does among plain values of one variant. -/
theorem cmp_lt_trans_of {a b c : Plain}
    (hsame : a.variant = b.variant → b.variant = c.variant →
      cmp a b = .lt → cmp b c = .lt → cmp a c = .lt)
    (hab : cmp a b = .lt) (hbc : cmp b c = .lt) : cmp a c = .lt := by
  have h₁ := variant_le_of_cmp hab
  have h₂ := variant_le_of_cmp hbc
  by_cases h : a.variant = c.variant
  · exact hsame (by omega) (by omega) hab hbc
  · rw [cmp_of_variant_ne h, Nat.compare_eq_lt]
    omega

mutual

/-- **Less and again less is less**, at any depth. -/
theorem cmp_lt_trans : ∀ a b c : Plain, cmp a b = .lt → cmp b c = .lt → cmp a c = .lt
  | .bool _, b, c => cmp_lt_trans_of fun h₁ h₂ =>
    match b, c, h₁, h₂ with
    | .bool _, .bool _, _, _ => compare_lt_trans
  | .int _, b, c => cmp_lt_trans_of fun h₁ h₂ =>
    match b, c, h₁, h₂ with
    | .int _, .int _, _, _ => compare_lt_trans
  | .double _, b, c => cmp_lt_trans_of fun h₁ h₂ =>
    match b, c, h₁, h₂ with
    | .double _, .double _, _, _ => compare_lt_trans
  | .text _, b, c => cmp_lt_trans_of fun h₁ h₂ =>
    match b, c, h₁, h₂ with
    | .text _, .text _, _, _ => compare_lt_trans
  | .list as, b, c => cmp_lt_trans_of fun h₁ h₂ =>
    match b, c, h₁, h₂ with
    | .list bs, .list cs, _, _ => cmpItems_lt_trans as bs cs
  | .map as, b, c => cmp_lt_trans_of fun h₁ h₂ =>
    match b, c, h₁, h₂ with
    | .map bs, .map cs, _, _ => cmpEntries_lt_trans as bs cs

theorem cmpItems_lt_trans : ∀ as bs cs : List Plain,
    cmpItems as bs = .lt → cmpItems bs cs = .lt → cmpItems as cs = .lt
  | [], [], _, hab, _ => absurd hab (by simp [cmpItems])
  | [], _ :: _, [], _, hbc => absurd hbc (by simp [cmpItems])
  | [], _ :: _, _ :: _, _, _ => rfl
  | _ :: _, [], _, hab, _ => absurd hab (by simp [cmpItems])
  | _ :: _, _ :: _, [], _, hbc => absurd hbc (by simp [cmpItems])
  | a :: as, b :: bs, c :: cs, hab, hbc =>
    then_lt_trans (cmp_lt_trans a b c) (cmpItems_lt_trans as bs cs) hab hbc

theorem cmpEntries_lt_trans : ∀ as bs cs : List (String × Plain),
    cmpEntries as bs = .lt → cmpEntries bs cs = .lt → cmpEntries as cs = .lt
  | [], [], _, hab, _ => absurd hab (by simp [cmpEntries])
  | [], _ :: _, [], _, hbc => absurd hbc (by simp [cmpEntries])
  | [], _ :: _, _ :: _, _, _ => rfl
  | _ :: _, [], _, hab, _ => absurd hab (by simp [cmpEntries])
  | _ :: _, _ :: _, [], _, hbc => absurd hbc (by simp [cmpEntries])
  | (k, a) :: as, (l, b) :: bs, (m, c) :: cs, hab, hbc => by
    rw [cmpEntries, Ordering.then_assoc] at hab hbc ⊢
    exact then_lt_trans compare_lt_trans
      (then_lt_trans (cmp_lt_trans a b c) (cmpEntries_lt_trans as bs cs)) hab hbc

end

instance : Std.TransCmp cmp := transCmp_of_lt_trans cmp_lt_trans

instance : Std.TransOrd Plain := inferInstanceAs (Std.TransCmp cmp)

instance : Std.LawfulEqOrd Plain := inferInstanceAs (Std.LawfulEqCmp cmp)

mutual

/-- Every step has an answer. -/
theorem partialCmp?_eq : ∀ a b : Plain, partialCmp? a b = some (cmp a b)
  | .bool _, b => by cases b <;> rfl
  | .int _, b => by cases b <;> rfl
  | .double _, b => by cases b <;> rfl
  | .text _, b => by cases b <;> rfl
  | .list as, b => by
    cases b with
    | list bs => exact partialCmpItems?_eq as bs
    | _ => rfl
  | .map as, b => by
    cases b with
    | map bs => exact partialCmpEntries?_eq as bs
    | _ => rfl

theorem partialCmpItems?_eq : ∀ as bs : List Plain,
    partialCmpItems? as bs = some (cmpItems as bs)
  | [], bs => by cases bs <;> rfl
  | _ :: _, [] => rfl
  | a :: as, b :: bs => by
    rw [partialCmpItems?, partialCmp?_eq a b, partialCmpItems?_eq as bs, thenPartial_some,
      cmpItems]

theorem partialCmpEntries?_eq : ∀ as bs : List (String × Plain),
    partialCmpEntries? as bs = some (cmpEntries as bs)
  | [], bs => by cases bs <;> rfl
  | _ :: _, [] => rfl
  | (k, a) :: as, (l, b) :: bs => by
    rw [partialCmpEntries?, partialCmp?_eq a b, partialCmpEntries?_eq as bs, thenPartial_some,
      thenPartial_some, cmpEntries]

end

end Plain

/-! ## Values -/

theorem Kind.id_inj {k l : Kind} (h : k.id = l.id) : k = l := by
  cases k <;> cases l <;> simp_all [Kind.id]

namespace Value

/-- The plain value that a value is; for values of other kinds it does not matter which. -/
def plainPart : Value → Plain
  | .plain p => p
  | _ => .bool false

theorem plainPart_eq_of_kind {a b : Value} (h : ∀ p q, a = .plain p → b = .plain q → False)
    (hkind : a.kind = b.kind) : a.plainPart = b.plainPart := by
  cases a <;> cases b <;> simp_all [kind, plainPart]

/-- Values are compared by kind, then by fields, then as plain values.  Values of one kind have no
fields or are not plain, so one of the last two steps finds no difference. -/
theorem cmp_eq_compareLex : cmp = compareLex (compareOn fun v => v.kind.id)
    (compareLex (compareOn fields) (compareOn plainPart)) := by
  funext a b
  simp only [compareLex, compareOn]
  unfold cmp
  split
  · rfl
  · next h =>
    by_cases hkind : a.kind = b.kind
    · rw [plainPart_eq_of_kind h hkind, Std.compare_self, Ordering.then_eq]
    · cases hid : compare a.kind.id b.kind.id with
      | lt => rfl
      | gt => rfl
      | eq => exact absurd (Kind.id_inj (Std.LawfulEqCmp.eq_of_compare hid)) hkind

/-- Kind, fields and plain value together are all of a value. -/
theorem eq_of_parts {a b : Value} (hkind : a.kind = b.kind) (hfields : a.fields = b.fields)
    (hplain : a.plainPart = b.plainPart) : a = b :=
  match a, b, hkind with
  | .plain _, .plain _, _ => congrArg Value.plain hplain
  | .rectangle ⟨_, _, _, _⟩, .rectangle ⟨_, _, _, _⟩, _ => by
    simpa [fields, Int32.toInt_inj] using hfields
  | .point ⟨_, _⟩, .point ⟨_, _⟩, _ => by simpa [fields, Int32.toInt_inj] using hfields
  | .size ⟨_, _⟩, .size ⟨_, _⟩, _ => by simpa [fields, Int32.toInt_inj] using hfields
  | .color ⟨_, _, _, _⟩, .color ⟨_, _, _, _⟩, _ => by
    simpa [fields, Int32.toInt_inj] using hfields
  | .dateTime ⟨_⟩, .dateTime ⟨_⟩, _ => by simpa [fields, Int64.toInt_inj] using hfields
  | .time ⟨_, _, _, _⟩, .time ⟨_, _, _, _⟩, _ => by
    simpa [fields, Int32.toInt_inj] using hfields
  | .point3D ⟨_, _, _⟩, .point3D ⟨_, _, _⟩, _ => by
    simpa [fields, Int32.toInt_inj] using hfields

instance : Std.TransCmp cmp := cmp_eq_compareLex ▸ inferInstance

instance : Std.LawfulEqCmp cmp where
  eq_of_compare {a b} h := by
    rw [cmp_eq_compareLex] at h
    simp only [compareLex, compareOn, Ordering.then_eq_eq] at h
    obtain ⟨hkind, hfields, hplain⟩ := h
    exact eq_of_parts (Kind.id_inj (Std.LawfulEqCmp.eq_of_compare hkind))
      (Std.LawfulEqCmp.eq_of_compare hfields) (Std.LawfulEqCmp.eq_of_compare hplain)

instance : Std.TransOrd Value := inferInstanceAs (Std.TransCmp cmp)

instance : Std.LawfulEqOrd Value := inferInstanceAs (Std.LawfulEqCmp cmp)

/-- Every step has an answer. -/
theorem partialCmp?_eq (a b : Value) : partialCmp? a b = some (cmp a b) := by
  unfold partialCmp? cmp
  split
  · exact Plain.partialCmp?_eq _ _
  · rw [partialLex_some, thenPartial_some]

end Value

/-! ## Total orders -/

/-- A total order to which equality belongs, and the same order step by step. -/
structure IsTotalOrder {α : Type} (cmp : α → α → Ordering)
    (partialCmp? : α → α → Option Ordering) : Prop where
  eq_iff : ∀ a b, cmp a b = .eq ↔ a = b
  /-- The other way round the answer is the opposite one. -/
  swap : ∀ a b, cmp b a = (cmp a b).swap
  /-- One answer twice in a row is the answer for the ends. -/
  trans : ∀ a b c o, cmp a b = o → cmp b c = o → cmp a c = o
  /-- So is "less or equal". -/
  isLE_trans : ∀ a b c, (cmp a b).isLE → (cmp b c).isLE → (cmp a c).isLE
  /-- No step is without an answer. -/
  partial_eq : ∀ a b, partialCmp? a b = some (cmp a b)

theorem isTotalOrder_of {α : Type} {cmp : α → α → Ordering} [Std.TransCmp cmp]
    [Std.LawfulEqCmp cmp] {partialCmp? : α → α → Option Ordering}
    (h : ∀ a b, partialCmp? a b = some (cmp a b)) : IsTotalOrder cmp partialCmp? where
  eq_iff _ _ := Std.LawfulEqCmp.compare_eq_iff_eq
  swap _ _ := Std.OrientedCmp.eq_swap
  trans a b c o hab hbc := by
    cases o with
    | lt => exact Std.TransCmp.lt_trans hab hbc
    | eq => exact Std.TransCmp.eq_trans hab hbc
    | gt => exact Std.TransCmp.gt_trans hab hbc
  isLE_trans _ _ _ := Std.TransCmp.isLE_trans
  partial_eq := h

/-- **Values are totally ordered**, and so are plain values at any depth.  A double compares equal
to those with the same bits only, whatever they stand for. -/
theorem isTotalOrder_cmp :
    IsTotalOrder Value.cmp Value.partialCmp? ∧ IsTotalOrder Plain.cmp Plain.partialCmp? ∧
      ∀ x y : Binary64, Plain.cmp (.double x) (.double y) = .eq ↔ x.bits = y.bits := by
  refine ⟨isTotalOrder_of Value.partialCmp?_eq, isTotalOrder_of Plain.partialCmp?_eq,
    fun x y => ?_⟩
  rw [Plain.cmp_eq_iff, Plain.double.injEq, Binary64.mk.injEq]

/-- A map of the zeros and a NaN: the zeros differ, and what has the NaN in it equals itself. -/
example :
    let mixed (zero : Binary64) : Plain :=
      .map [("nan", .double ⟨0x7FF8000000000000⟩), ("zero", .list [.double zero])]
    Plain.cmp (mixed ⟨0x8000000000000000⟩) (mixed ⟨0⟩) = .lt ∧
      Plain.cmp (mixed ⟨0⟩) (mixed ⟨0⟩) = .eq := by
  decide +kernel

end Arbor

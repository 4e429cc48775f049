/-
# Results one after another

What a result that was reached by several steps says of each of them.  Steps along a list succeed
if each of them does (`mapM_eq_ok_iff`), and fail at the first that fails (`mapM_eq_error_iff`).
-/

import Mathlib.Data.List.Forall2

namespace Arbor

variable {ε α β : Type}

theorem bind_eq_ok_iff {x : Except ε α} {f : α → Except ε β} {b : β} :
    x >>= f = .ok b ↔ ∃ a, x = .ok a ∧ f a = .ok b := by
  cases x with
  | error e => simp [bind, Except.bind]
  | ok a => simp [bind, Except.bind]

theorem bind_eq_error_iff {x : Except ε α} {f : α → Except ε β} {e : ε} :
    x >>= f = .error e ↔ x = .error e ∨ ∃ a, x = .ok a ∧ f a = .error e := by
  cases x with
  | error e' => simp [bind, Except.bind]
  | ok a => simp [bind, Except.bind]

theorem map_eq_ok_iff {x : Except ε α} {f : α → β} {b : β} :
    x.map f = .ok b ↔ ∃ a, x = .ok a ∧ f a = b := by
  cases x with
  | error e => simp [Except.map]
  | ok a => simp [Except.map]

theorem map_eq_error_iff {x : Except ε α} {f : α → β} {e : ε} :
    x.map f = .error e ↔ x = .error e := by
  cases x with
  | error e => simp [Except.map]
  | ok a => simp [Except.map]

theorem toOption_eq_some_iff {x : Except ε α} {a : α} : x.toOption = some a ↔ x = .ok a := by
  cases x with
  | error e => simp [Except.toOption]
  | ok b => simp [Except.toOption]

theorem pure_eq_ok_iff {a b : α} : (pure a : Except ε α) = .ok b ↔ a = b := by
  simp [pure, Except.pure]

/-! ## Along a list -/

section List

variable {f : α → Except ε β}

theorem mapM_eq_ok_iff {l : List α} {l' : List β} :
    l.mapM f = .ok l' ↔ List.Forall₂ (fun a b => f a = .ok b) l l' := by
  induction l generalizing l' with
  | nil =>
    rw [List.mapM_nil, pure_eq_ok_iff, List.forall₂_nil_left_iff]
    exact eq_comm
  | cons a rest ih =>
    rw [List.mapM_cons, bind_eq_ok_iff, List.forall₂_cons_left_iff]
    refine exists_congr fun b => ?_
    rw [bind_eq_ok_iff]
    constructor
    · rintro ⟨hb, rest', hrest, heq⟩
      exact ⟨rest', hb, ih.1 hrest, (pure_eq_ok_iff.1 heq).symm⟩
    · rintro ⟨rest', hb, hrest, rfl⟩
      exact ⟨hb, rest', ih.2 hrest, rfl⟩

/-- Nothing is left out of a list along which every step succeeds. -/
theorem exists_forall₂_iff {l : List α} :
    (∃ l', List.Forall₂ (fun a b => f a = .ok b) l l') ↔ ∀ a ∈ l, ∃ b, f a = .ok b := by
  induction l with
  | nil => simp
  | cons a rest ih =>
    rw [List.forall_mem_cons, ← ih]
    simp only [List.forall₂_cons_left_iff]
    constructor
    · rintro ⟨_, b, rest', hb, hrest, -⟩
      exact ⟨⟨b, hb⟩, rest', hrest⟩
    · rintro ⟨⟨b, hb⟩, rest', hrest⟩
      exact ⟨b :: rest', b, rest', hb, hrest, rfl⟩

/-- A list fails at its first step, or after it. -/
theorem mapM_cons_eq_error_iff {a : α} {rest : List α} {e : ε} :
    (a :: rest).mapM f = .error e ↔
      f a = .error e ∨ (∃ b, f a = .ok b) ∧ rest.mapM f = .error e := by
  rw [List.mapM_cons, bind_eq_error_iff, ← exists_and_right]
  refine or_congr_right (exists_congr fun b => and_congr_right fun _ => ?_)
  rw [bind_eq_error_iff]
  simp [pure, Except.pure]

/-- **The first failure is the failure of all.** -/
theorem mapM_eq_error_iff {l : List α} {e : ε} :
    l.mapM f = .error e ↔
      ∃ before a after, l = before ++ a :: after ∧ (∀ b ∈ before, ∃ c, f b = .ok c) ∧
        f a = .error e := by
  constructor
  · intro h
    induction l with
    | nil => exact absurd h (by simp [pure, Except.pure])
    | cons a rest ih =>
      rcases mapM_cons_eq_error_iff.1 h with ha | ⟨ha, hrest⟩
      · exact ⟨[], a, rest, rfl, by simp, ha⟩
      · obtain ⟨before, a', after, rfl, hbefore, ha'⟩ := ih hrest
        exact ⟨a :: before, a', after, rfl, List.forall_mem_cons.2 ⟨ha, hbefore⟩, ha'⟩
  · rintro ⟨before, a, after, rfl, hbefore, ha⟩
    induction before with
    | nil => exact mapM_cons_eq_error_iff.2 (Or.inl ha)
    | cons b rest ih =>
      obtain ⟨hb, hrest⟩ := List.forall_mem_cons.1 hbefore
      exact mapM_cons_eq_error_iff.2 (Or.inr ⟨hb, ih hrest⟩)

end List

end Arbor

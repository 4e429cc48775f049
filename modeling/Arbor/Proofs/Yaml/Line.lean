/-
# Lines

A text is its lines, each but the last with a line break behind it (`exists_lines`), and lines
written one after another with their breaks are found again (`lines_unlines_append`).

What follows the value of a field is nothing or a line that starts further left (`Outdented`), so
that neither a scalar without quotes nor a block reaches into it.
-/

import Arbor.Yaml.Token
import Mathlib.Data.List.Basic

namespace Arbor
namespace Yaml

/-- Lines, each with its line break. -/
def unlines (ls : List (List Char)) : List Char := ls.flatMap (· ++ ['\n'])

theorem unlines_cons (l : List Char) (ls : List (List Char)) :
    unlines (l :: ls) = l ++ '\n' :: unlines ls := by
  rw [unlines, List.flatMap_cons, List.append_assoc]
  rfl

theorem unlines_append (ls ls' : List (List Char)) :
    unlines (ls ++ ls') = unlines ls ++ unlines ls' := List.flatMap_append

theorem unlines_singleton (l : List Char) : unlines [l] = l ++ ['\n'] := by
  rw [unlines_cons]
  rfl

theorem mem_unlines {ls : List (List Char)} {c : Char} :
    c ∈ unlines ls ↔ ∃ l ∈ ls, c ∈ l ∨ c = '\n' := by
  simp [unlines]

/-- Empty lines are line breaks. -/
theorem unlines_replicate (n : Nat) : unlines (List.replicate n []) = List.replicate n '\n' := by
  induction n with
  | zero => rfl
  | succ n ih => rw [List.replicate_succ, unlines_cons, ih, List.replicate_succ, List.nil_append]

/-- Line breaks between lines are line breaks behind all lines but the last. -/
theorem intercalate_concat (ls : List (List Char)) (last : List Char) :
    ['\n'].intercalate (ls ++ [last]) = unlines ls ++ last := by
  induction ls with
  | nil => exact List.intercalate_singleton
  | cons l ls ih =>
    rw [List.cons_append, List.intercalate_cons_of_ne_nil (by simp), ih, unlines_cons]
    simp

/-- A line break more makes them line breaks behind all lines. -/
theorem intercalate_append_break {ls : List (List Char)} (h : ls ≠ []) :
    ['\n'].intercalate ls ++ ['\n'] = unlines ls := by
  obtain ⟨init, last, rfl⟩ := (List.eq_nil_or_concat' ls).resolve_left h
  rw [intercalate_concat, unlines_append, unlines_singleton, List.append_assoc]

/-! ## The lines of a text -/

theorem lines_cons_of_ne {c : Char} (h : c ≠ '\n') {s l : List Char} {ls : List (List Char)}
    (hs : lines s = l :: ls) : lines (c :: s) = (c :: l) :: ls := by
  rw [lines, if_neg h, hs]

theorem lines_break (s : List Char) : lines ('\n' :: s) = [] :: lines s := by
  rw [lines, if_pos rfl]

/-- **A text is its lines**, each but the last with a line break behind it. -/
theorem exists_lines (s : List Char) :
    ∃ ls last, lines s = ls ++ [last] ∧ s = unlines ls ++ last ∧ (∀ l ∈ ls, '\n' ∉ l) ∧
      '\n' ∉ last := by
  induction s with
  | nil => exact ⟨[], [], rfl, rfl, by simp, by simp⟩
  | cons c s ih =>
    obtain ⟨ls, last, hlines, hs, hls, hlast⟩ := ih
    by_cases hc : c = '\n'
    · subst hc
      refine ⟨[] :: ls, last, ?_, ?_, ?_, hlast⟩
      · rw [lines_break, hlines, List.cons_append]
      · rw [unlines_cons, List.nil_append, List.cons_append, ← hs]
      · exact List.forall_mem_cons.2 ⟨by simp, hls⟩
    · cases ls with
      | nil =>
        refine ⟨[], c :: last, lines_cons_of_ne hc hlines, by rw [hs]; rfl, by simp, ?_⟩
        simp [Ne.symm hc, hlast]
      | cons l ls =>
        obtain ⟨hl, hls⟩ := List.forall_mem_cons.1 hls
        refine ⟨(c :: l) :: ls, last, lines_cons_of_ne hc hlines, ?_, ?_, hlast⟩
        · rw [hs, unlines_cons, unlines_cons]
          rfl
        · exact List.forall_mem_cons.2 ⟨by simp [Ne.symm hc, hl], hls⟩

theorem lines_ne_nil (s : List Char) : lines s ≠ [] := by
  obtain ⟨ls, last, h, -⟩ := exists_lines s
  simp [h]

/-- What stands on a line stands in the text. -/
theorem mem_of_mem_lines {s l : List Char} (hl : l ∈ lines s) {c : Char} (hc : c ∈ l) : c ∈ s := by
  obtain ⟨ls, last, hlines, hs, -⟩ := exists_lines s
  rw [hlines, List.mem_append, List.mem_singleton] at hl
  rw [hs, List.mem_append, mem_unlines]
  rcases hl with hl | rfl
  · exact Or.inl ⟨l, hl, Or.inl hc⟩
  · exact Or.inr hc

/-- Line breaks between its lines make a text again. -/
theorem intercalate_lines (s : List Char) : ['\n'].intercalate (lines s) = s := by
  obtain ⟨ls, last, hlines, hs, -⟩ := exists_lines s
  rw [hlines, intercalate_concat, ← hs]

theorem lines_append_break {l : List Char} (h : '\n' ∉ l) (s : List Char) :
    lines (l ++ '\n' :: s) = l :: lines s := by
  induction l with
  | nil => exact lines_break s
  | cons c l ih =>
    rw [List.mem_cons, not_or] at h
    exact lines_cons_of_ne (Ne.symm h.1) (ih h.2)

/-- **Lines with their breaks are found again.** -/
theorem lines_unlines_append {ls : List (List Char)} (h : ∀ l ∈ ls, '\n' ∉ l) (s : List Char) :
    lines (unlines ls ++ s) = ls ++ lines s := by
  induction ls with
  | nil => rfl
  | cons l ls ih =>
    obtain ⟨hl, hls⟩ := List.forall_mem_cons.1 h
    rw [unlines_cons, List.append_assoc, List.cons_append, lines_append_break hl, ih hls,
      List.cons_append]

theorem lines_of_not_mem {s : List Char} (h : '\n' ∉ s) : lines s = [s] := by
  induction s with
  | nil => rfl
  | cons c rest ih =>
    rw [List.mem_cons, not_or] at h
    exact lines_cons_of_ne (Ne.symm h.1) (ih h.2)

/-- Folding does nothing to a text on one line. -/
theorem foldLines_lines {s : List Char} (h : '\n' ∉ s) : foldLines (lines s) = s := by
  rw [lines_of_not_mem h, foldLines]

/-! ## What follows a value -/

/-- Nothing, or a line that starts left of a column with something other than a blank. -/
inductive Outdented (column : Nat) : List Char → Prop
  | nil : Outdented column []
  | line {width : Nat} {c : Char} (rest : List Char) : width < column → c ≠ '\n' →
      isBlank c = false → Outdented column (List.replicate width ' ' ++ c :: rest)

theorem Outdented.mono {column column' : Nat} {rest : List Char} (h : Outdented column rest)
    (hle : column ≤ column') : Outdented column' rest := by
  cases h with
  | nil => exact .nil
  | line rest hwidth hc hblank => exact .line rest (Nat.lt_of_lt_of_le hwidth hle) hc hblank

/-- The first line of what is further left. -/
theorem lines_outdented (width : Nat) {c : Char} (hc : c ≠ '\n') (rest : List Char) :
    ∃ l ls, lines (List.replicate width ' ' ++ c :: rest) =
      (List.replicate width ' ' ++ c :: l) :: ls := by
  obtain ⟨l, ls, hrest⟩ := List.exists_cons_of_ne_nil (lines_ne_nil rest)
  refine ⟨l, ls, ?_⟩
  induction width with
  | zero => exact lines_cons_of_ne hc hrest
  | succ n ih => exact lines_cons_of_ne (by decide) ih

end Yaml
end Arbor

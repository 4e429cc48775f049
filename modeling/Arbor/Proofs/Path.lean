/-
# Paths and their parts

The parts of a path are what stands between its slashes (`Path.parts_eq_splitOn`).  A path with a
slash is a beginning, a slash, and a type name without slashes (`Path.exists_eq_append_typeName`).

The last part may be empty, the components are the others.  So the type name is the last component
unless the path ends in a slash: then it is empty, and no component is
(`Path.getLast?_components_eq_iff`).
-/

import Arbor.Path

namespace Arbor
namespace Path

/-! ## Parts -/

theorem parts_ne_nil (l : List Char) : parts l ≠ [] := by
  cases l with
  | nil => simp [parts]
  | cons c rest =>
    rw [parts]
    split
    · exact List.cons_ne_nil _ _
    · split
      · exact List.cons_ne_nil _ _
      · exact List.cons_ne_nil _ _

/-- **The parts are what slashes split a text into.** -/
theorem parts_eq_splitOn (l : List Char) : parts l = l.splitOn '/' := by
  induction l with
  | nil => rfl
  | cons c rest ih =>
    rw [parts, ih, List.splitOn, List.splitOn, List.splitOnP_cons_eq_if_modifyHead]
    by_cases hc : c = '/'
    · rw [if_pos hc, if_pos (beq_iff_eq.2 hc)]
    · rw [if_neg hc, if_neg (mt beq_iff_eq.1 hc)]
      cases hrest : rest.splitOnP (· == '/') with
      | nil => exact absurd hrest (List.splitOnP_ne_nil _ _)
      | cons p ps => rfl

theorem parts_of_not_mem {l : List Char} (h : '/' ∉ l) : parts l = [l] := by
  rw [parts_eq_splitOn]
  refine List.splitOnP_eq_singleton fun c hc => beq_eq_false_iff_ne.2 ?_
  rintro rfl
  exact h hc

theorem parts_append (a b : List Char) : parts (a ++ '/' :: b) = parts a ++ parts b := by
  induction a with
  | nil => rfl
  | cons c rest ih =>
    rw [List.cons_append, parts, parts, ih]
    split
    · rfl
    · cases hrest : parts rest with
      | nil => exact absurd hrest (parts_ne_nil rest)
      | cons p ps => rfl

/-! ## The type name -/

/-- What follows the last slash is the type name. -/
theorem typeName_append {path : String} {a b : List Char} (hpath : path.toList = a ++ '/' :: b)
    (hb : '/' ∉ b) : typeName path = String.ofList b := by
  rw [typeName, hpath, parts_append, parts_of_not_mem hb, List.getLastD_concat]

/-- **A path with a slash has a last one**, and the type name follows it. -/
theorem exists_eq_append_typeName {path : String} (h : '/' ∈ path.toList) :
    ∃ a, path.toList = a ++ '/' :: (typeName path).toList ∧ '/' ∉ (typeName path).toList := by
  obtain ⟨b, a, hreverse, hb⟩ := List.eq_append_cons_of_mem (List.mem_reverse.2 h)
  have hpath : path.toList = a.reverse ++ '/' :: b.reverse := by
    rw [← List.reverse_inj, hreverse]
    simp
  have hb : '/' ∉ b.reverse := mt List.mem_reverse.1 hb
  rw [typeName_append hpath hb, String.toList_ofList]
  exact ⟨_, hpath, hb⟩

/-- The last character is a slash. -/
def EndsInSlash (path : String) : Prop := path.toList.getLast? = some '/'

instance (path : String) : Decidable (EndsInSlash path) := inferInstanceAs (Decidable (_ = _))

/-- The type name of a path with a slash is empty exactly if a slash ends the path. -/
theorem typeName_eq_empty_iff {path : String} (h : '/' ∈ path.toList) :
    typeName path = "" ↔ EndsInSlash path := by
  obtain ⟨a, hpath, hslash⟩ := exists_eq_append_typeName h
  rw [← String.toList_eq_nil_iff, EndsInSlash, hpath]
  generalize (typeName path).toList = b at hslash
  rcases List.eq_nil_or_concat b with rfl | ⟨b, c, rfl⟩
  · simp
  · rw [List.concat_eq_append] at hslash ⊢
    have hc : c ≠ '/' := by
      rintro rfl
      exact hslash (by simp)
    rw [← List.cons_append, ← List.append_assoc, List.getLast?_concat]
    simp [hc]

/-! ## Components -/

theorem ne_empty_of_mem_components {path name : String} (h : name ∈ components path) :
    name ≠ "" := by
  obtain ⟨p, hp, rfl⟩ := List.mem_map.1 h
  rintro hempty
  rw [← String.toList_eq_nil_iff, String.toList_ofList] at hempty
  rw [hempty] at hp
  exact absurd (List.mem_filter.1 hp).2 (by simp)

/-- **The type name is the last component unless it is empty.** -/
theorem getLast?_components_eq_iff (path : String) :
    (components path).getLast? = some (typeName path) ↔ typeName path ≠ "" := by
  constructor
  · intro h
    exact ne_empty_of_mem_components (List.mem_of_getLast? h)
  · intro h
    obtain ⟨front, last, hparts⟩ :=
      (List.eq_nil_or_concat (parts path.toList)).resolve_left (parts_ne_nil _)
    rw [List.concat_eq_append] at hparts
    rw [typeName, hparts, List.getLastD_concat] at h ⊢
    have hne : last ≠ [] := by
      rintro rfl
      exact h rfl
    simp [components, hparts, hne]

end Path
end Arbor

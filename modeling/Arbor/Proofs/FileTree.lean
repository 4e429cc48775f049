/-
# Changes to a file tree

What an operation on a file tree needs, and what stands where afterwards:

| operation | needs | afterwards |
| --- | --- | --- |
| `makeFolders` | on the way down no file, and no lock where nothing is | folders on the way down |
| `write` | a folder above, and no folder and no lock at the location | the file there |
| `rename` | a file without a lock, and what `write` needs of the target | the file at the target |

Everywhere else the tree is as it was, and locks stay.
-/

import Arbor.FileTree
import Mathlib.Data.List.Basic

namespace Arbor
namespace FileTree

variable {t t' : FileTree} {l location : Location}

/-- A folder stands at the location, or one can be made there. -/
def Passable (t : FileTree) (l : Location) : Prop :=
  t.get? l = some .folder ∨ (t.get? l = none ∧ t.isLocked l = false)

/-! ## Folders -/

theorem mem_upTo {above : Location} :
    l ∈ upTo above location ↔ ∃ s, s <+: location ∧ l = above ++ s := by
  induction location generalizing above with
  | nil => simp [upTo]
  | cons name rest ih =>
    rw [upTo, List.mem_cons, ih]
    constructor
    · rintro (rfl | ⟨s, hs, rfl⟩)
      · exact ⟨[], List.nil_prefix, by simp⟩
      · exact ⟨name :: s, List.cons_prefix_cons.2 ⟨rfl, hs⟩, by simp⟩
    · rintro ⟨s, hs, rfl⟩
      cases s with
      | nil => exact Or.inl (by simp)
      | cons m s =>
        obtain ⟨rfl, hrest⟩ := List.cons_prefix_cons.1 hs
        exact Or.inr ⟨s, hrest, by simp⟩

/-- The locations on the way down are those that the location begins with. -/
theorem mem_upTo_nil : l ∈ upTo [] location ↔ l <+: location := by
  simp [mem_upTo]

/-- A new folder gets in nobody's way. -/
theorem passable_set_folder (hl : t.Passable l) (m : Location) :
    (t.set l (some .folder)).Passable m ↔ t.Passable m := by
  by_cases h : m = l
  · subst h
    exact iff_of_true (Or.inl (get?_set_self t m _)) hl
  · rw [Passable, Passable, get?_set_of_ne t _ h]
    rfl

/-- **Folders are made** exactly where nothing is in the way. -/
theorem makeEach_isSome_iff {ls : List Location} :
    (t.makeEach ls).isSome = true ↔ ∀ l ∈ ls, t.Passable l := by
  induction ls generalizing t with
  | nil => simp [makeEach]
  | cons l ls ih =>
    rw [makeEach, List.forall_mem_cons]
    cases hl : t.get? l with
    | none =>
      by_cases hlock : t.isLocked l = true
      · simp [hl, hlock, Passable]
      · have hpass : t.Passable l := Or.inr ⟨hl, by simpa using hlock⟩
        simp only [hlock, Bool.false_eq_true, if_false, ih, passable_set_folder hpass, hpass,
          true_and]
    | some entry =>
      cases entry with
      | file text => simp [Passable, hl]
      | folder =>
        have hpass : t.Passable l := Or.inl hl
        simp only [ih, hpass, true_and]

/-- What stands where once folders are made. -/
theorem get?_makeEach {ls : List Location} (h : t.makeEach ls = some t') :
    (∀ l, t'.get? l = if l ∈ ls then some .folder else t.get? l) ∧ t'.isLocked = t.isLocked := by
  induction ls generalizing t with
  | nil =>
    obtain rfl := Option.some.inj h
    exact ⟨by simp, rfl⟩
  | cons k ls ih =>
    have hstep {u : FileTree} (hu : u.makeEach ls = some t')
        (hfolder : ∀ l, u.get? l = if l = k then some .folder else t.get? l)
        (hlock : u.isLocked = t.isLocked) :
        (∀ l, t'.get? l = if l ∈ k :: ls then some .folder else t.get? l) ∧
          t'.isLocked = t.isLocked := by
      obtain ⟨hget, hlocked⟩ := ih hu
      refine ⟨fun l => ?_, hlocked.trans hlock⟩
      rw [hget, hfolder]
      by_cases hl : l = k <;> simp [hl]
    rw [makeEach] at h
    cases hk : t.get? k with
    | none =>
      simp only [hk] at h
      split at h
      · cases h
      · exact hstep h (fun l => rfl) rfl
    | some entry =>
      cases entry with
      | file text => simp [hk] at h
      | folder =>
        simp only [hk] at h
        refine hstep h (fun l => ?_) rfl
        split
        · next heq => rw [heq, hk]
        · rfl

/-- **A folder is made** exactly if nothing is in the way on the way down to it. -/
theorem makeFolders_isSome_iff :
    (t.makeFolders location).isSome = true ↔ ∀ l, l <+: location → t.Passable l := by
  simp only [makeFolders, makeEach_isSome_iff, mem_upTo_nil]

/-- What stands where once a folder is made. -/
theorem get?_makeFolders (h : t.makeFolders location = some t') :
    (∀ l, l <+: location → t'.get? l = some .folder) ∧
      (∀ l, ¬l <+: location → t'.get? l = t.get? l) ∧ t'.isLocked = t.isLocked := by
  obtain ⟨hget, hlocked⟩ := get?_makeEach h
  refine ⟨fun l hl => ?_, fun l hl => ?_, hlocked⟩
  · rw [hget, if_pos (mem_upTo_nil.2 hl)]
  · rw [hget, if_neg fun hmem => hl (mem_upTo_nil.1 hmem)]

/-- No file is lost. -/
theorem text?_makeFolders (h : t.makeFolders location = some t') (l : Location) :
    t'.text? l = t.text? l := by
  obtain ⟨hfolder, hother, -⟩ := get?_makeFolders h
  by_cases hl : l <+: location
  · have hpass := makeFolders_isSome_iff.1 (Option.isSome_iff_exists.2 ⟨t', h⟩) l hl
    rw [text?, text?, hfolder l hl]
    rcases hpass with hpass | ⟨hpass, -⟩ <;> rw [hpass]
  · rw [text?, text?, hother l hl]

/-! ## Files -/

/-- A file can be put at the location, if a folder stands above it. -/
def Free (t : FileTree) (l : Location) : Prop := t.get? l ≠ some .folder ∧ t.isLocked l = false

instance : Decidable (t.Free l) :=
  inferInstanceAs (Decidable (t.get? l ≠ some .folder ∧ t.isLocked l = false))

/-- What stands elsewhere does not matter. -/
theorem free_congr (hget : t'.get? l = t.get? l) (hlocked : t'.isLocked = t.isLocked) :
    t'.Free l ↔ t.Free l := by
  rw [Free, Free, hget, hlocked]

theorem isVacant_iff (hne : l ≠ []) (habove : t.get? l.dropLast = some .folder) :
    t.isVacant l = true ↔ t.Free l := by
  simp [isVacant, Free, hne, habove]

/-- **A file is written** below a folder exactly if its place is free. -/
theorem write_eq (hne : l ≠ []) (habove : t.get? l.dropLast = some .folder) (text : String) :
    (t.Free l → t.write l text = some (t.set l (some (.file text)))) ∧
      (¬t.Free l → t.write l text = none) := by
  rw [← isVacant_iff hne habove]
  exact ⟨fun h => if_pos h, fun h => if_neg h⟩

/-- **A file is moved** below a folder exactly if its new place is free. -/
theorem rename_eq {source target : Location} {text : String}
    (hsource : t.get? source = some (.file text)) (hlocked : t.isLocked source = false)
    (hne : target ≠ []) (habove : t.get? target.dropLast = some .folder) :
    (t.Free target → t.rename source target =
        some ((t.set source none).set target (some (.file text)))) ∧
      (¬t.Free target → t.rename source target = none) := by
  rw [← isVacant_iff hne habove]
  refine ⟨fun h => ?_, fun h => ?_⟩
  · simp [rename, hsource, hlocked, h]
  · simp [rename, hsource, h]

end FileTree
end Arbor

/-
# Settings stored and loaded

Storing makes the folder, has a layer write the text, puts that in a temporary file beside the file,
and this in the place of the file; it ends at the first of these steps that fails (`store_eq`).

| step | where something changes |
| --- | --- |
| folder | on the way down to the file, where there was nothing |
| text | nowhere |
| temporary file | at its own location, which is never that of the file (`temporary_ne`) |
| rename | at both |

So the file is what it was until the last step, and after it is what was written.  That is read as
the same settings if the layer reads back what it writes (`Layer.ReadsBack`), the one thing that is
assumed of a layer.
-/

import Arbor.Proofs.Action
import Arbor.Proofs.FileTree
import Arbor.Proofs.Settings.Document
import Mathlib.Data.List.TakeWhile

namespace Arbor
namespace Settings

/-! ## The temporary file -/

/-- A name is its stem, or its stem, a point and an ending without a point. -/
theorem stem_eq_or (name : String) : stem name = name ∨
    ∃ ending, name.toList = (stem name).toList ++ '.' :: ending ∧ '.' ∉ ending := by
  have hsplit := List.takeWhile_append_dropWhile (p := (· != '.')) (l := name.toList.reverse)
  have hpoint : '.' ∉ name.toList.reverse.takeWhile (· != '.') := fun hmem =>
    absurd (List.mem_takeWhile_imp hmem) (by decide)
  have hfirst := List.head?_dropWhile_not (· != '.') name.toList.reverse
  rw [stem]
  generalize name.toList.reverse.takeWhile (· != '.') = ending at hsplit hpoint
  cases hdrop : name.toList.reverse.dropWhile (· != '.') with
  | nil => exact Or.inl rfl
  | cons c before =>
    rw [hdrop] at hsplit hfirst
    obtain rfl : c = '.' := by simpa using hfirst
    show (if before.reverse.isEmpty then name else String.ofList before.reverse) = name ∨ ∃ ending,
      name.toList = (if before.reverse.isEmpty then name
        else String.ofList before.reverse).toList ++ '.' :: ending ∧ '.' ∉ ending
    split
    · exact Or.inl rfl
    · refine Or.inr ⟨ending.reverse, ?_, by simpa using hpoint⟩
      have hname : name.toList = (ending ++ '.' :: before).reverse := by
        rw [hsplit, List.reverse_reverse]
      rw [String.toList_ofList, hname]
      simp

/-- The name of the temporary file is another one. -/
theorem stem_append_ne (name : String) : stem name ++ ".yaml.tmp" ≠ name := by
  intro h
  have hchars : (stem name).toList ++ ".yaml.tmp".toList = name.toList := by
    rw [← String.toList_append, h]
  rcases stem_eq_or name with heq | ⟨ending, hname, hending⟩
  · rw [heq] at hchars
    exact absurd (List.append_right_eq_self.1 hchars) (by decide)
  · rw [hname] at hchars
    have htail : ".yaml.tmp".toList = '.' :: ending := List.append_cancel_left hchars
    rw [← (List.cons.inj htail).2] at hending
    exact hending (by decide)

theorem temporary_eq (parent : Location) (name : String) :
    temporary (parent ++ [name]) = parent ++ [stem name ++ ".yaml.tmp"] := by
  rw [temporary, List.getLast?_concat]
  show (parent ++ [name]).dropLast ++ _ = _
  rw [List.dropLast_concat]

/-- **The temporary file never stands where the file does.** -/
theorem temporary_ne {location : Location} (h : location ≠ []) :
    temporary location ≠ location := by
  obtain ⟨parent, name, rfl⟩ := (List.eq_nil_or_concat' location).resolve_left h
  rw [temporary_eq]
  intro heq
  exact stem_append_ne name (List.singleton_inj.1 (List.append_cancel_left heq))

/-! ## Steps -/

variable {ν : Type} {layer : Layer ν}

/-- After a change the rest runs in the changed tree, and takes no longer. -/
theorem change_bind {α : Type} (fault : FileFault) (f : FileTree → Option FileTree)
    (rest : Filing α) (now : Nat) (d : Disk) :
    (change fault f >>= fun _ => rest) now d =
      match f d.tree with
      | none => ⟨.error fault, 0, d⟩
      | some tree => rest now { d with tree := tree } := by
  have hchange : change fault f now d = match f d.tree with
      | none => ⟨.error fault, 0, d⟩
      | some tree => ⟨.ok (), 0, { d with tree := tree }⟩ := by
    show (Action.get >>= _) now d = _
    rw [Action.get_bind]
    cases f d.tree <;> rfl
  cases hf : f d.tree with
  | none => exact Action.bind_of_error (by rw [hchange, hf])
  | some tree =>
    rw [hf] at hchange
    rw [Action.bind_of_ok hchange, Action.later, Nat.zero_add]
    rfl

/-- **How storing ends**: at the first step that fails, or after all. -/
theorem store_eq (layer : Layer ν) (root : String) (c : Settings) (location : Location) (now : Nat)
    (d : Disk) :
    store layer root c location now d =
      match d.tree.makeFolders location.dropLast with
      | none => ⟨.error (.folder location.dropLast), 0, d⟩
      | some t₁ =>
        match layer.write? c.outline with
        | none => ⟨.error .serialize, 0, { d with tree := t₁ }⟩
        | some text =>
          match t₁.write (temporary location) text with
          | none => ⟨.error (.temporary (temporary location)), 0, { d with tree := t₁ }⟩
          | some t₂ =>
            match t₂.rename (temporary location) location with
            | none => ⟨.error (.rename location), 0, { d with tree := t₂ }⟩
            | some t₃ => ⟨.ok (), 0, ⟨t₃, ⟨.info, "Wrote config",
                [("path", shownLocation root location)]⟩ :: d.events⟩⟩ := by
  rw [store, change_bind]
  cases d.tree.makeFolders location.dropLast with
  | none => rfl
  | some t₁ =>
    cases layer.write? c.outline with
    | none => rfl
    | some text =>
      simp only [change_bind]
      cases t₁.write (temporary location) text with
      | none => rfl
      | some t₂ =>
        cases t₂.rename (temporary location) location with
        | none => rfl
        | some t₃ => rfl

/-- A file with settings is loaded. -/
theorem load_of_file {location : Location} {d : Disk} {text : String} {c : Settings}
    (hfile : d.tree.get? location = some (.file text)) (hread : layer.read? text = some c)
    (root : String) (now : Nat) : (load layer root location now d).result = .ok c := by
  have hexists : d.tree.exists? location = true := by rw [FileTree.exists?, hfile]; rfl
  have htext : d.tree.text? location = some text := by rw [FileTree.text?, hfile]
  show ((Action.get >>= _) now d).result = _
  rw [Action.get_bind]
  simp only [hexists, if_true, htext, hread]
  rfl

/-! ## What is needed -/

/-- Settings can be stored at a location: nothing is in the way of the folders, and both the file
and the temporary one can be put in their places. -/
structure IsWritable (t : FileTree) (location : Location) : Prop where
  folders : ∀ l, l <+: location.dropLast → t.Passable l
  temporary : t.Free (temporary location)
  target : t.Free location

/-- The tree in which a text has been stored, given the tree with the folders. -/
def stored (text : String) (location : Location) (t : FileTree) : FileTree :=
  ((t.set (temporary location) (some (.file text))).set (temporary location) none).set location
    (some (.file text))

/-- **Storing succeeds exactly where settings can be stored**, if the layer has a text for them.
Otherwise the file is what it was, whichever step fails. -/
theorem store_ends (layer : Layer ν) (root : String) (c : Settings) {location : Location}
    (hname : location ≠ []) (now : Nat) (d : Disk) :
    (IsWritable d.tree location ∧ (store layer root c location now d).result = .ok () ∧
        ∃ text t, layer.write? c.outline = some text ∧
          d.tree.makeFolders location.dropLast = some t ∧
          (store layer root c location now d).state.tree = stored text location t) ∨
      (¬(IsWritable d.tree location ∧ (layer.write? c.outline).isSome = true) ∧
        (∃ fault, (store layer root c location now d).result = .error fault) ∧
        (store layer root c location now d).state.tree.get? location = d.tree.get? location) := by
  rw [store_eq]
  cases hfolders : d.tree.makeFolders location.dropLast with
  | none =>
    refine Or.inr ⟨fun h => ?_, ⟨_, rfl⟩, rfl⟩
    have hsome := FileTree.makeFolders_isSome_iff.2 h.1.folders
    rw [hfolders] at hsome
    cases hsome
  | some t₁ =>
    obtain ⟨parent, name, rfl⟩ := (List.eq_nil_or_concat' location).resolve_left hname
    have hpassable := FileTree.makeFolders_isSome_iff.1 (Option.isSome_iff_exists.2 ⟨t₁, hfolders⟩)
    obtain ⟨hfolder, hother, hlocked⟩ := FileTree.get?_makeFolders hfolders
    rw [List.dropLast_concat] at hfolder hother
    -- neither of the files stands on the way down to them
    have hfile (x : String) : t₁.get? (parent ++ [x]) = d.tree.get? (parent ++ [x]) :=
      hother _ fun h => by simpa using h.length_le
    have habove (x : String) : t₁.get? (parent ++ [x]).dropLast = some .folder := by
      rw [List.dropLast_concat]
      exact hfolder _ (List.prefix_refl _)
    have hfree (x : String) : t₁.Free (parent ++ [x]) ↔ d.tree.Free (parent ++ [x]) :=
      FileTree.free_congr (hfile x) hlocked
    cases layer.write? c.outline with
    | none => exact Or.inr ⟨fun h => Bool.false_ne_true h.2, ⟨_, rfl⟩, hfile name⟩
    | some text =>
      have hne := temporary_ne hname
      have hplace : ∃ x, temporary (parent ++ [name]) = parent ++ [x] :=
        ⟨_, temporary_eq parent name⟩
      generalize htemporary : temporary (parent ++ [name]) = other at hne hplace
      obtain ⟨x, rfl⟩ := hplace
      have hwrite := FileTree.write_eq (by simp) (habove x) text
      by_cases hfree₁ : d.tree.Free (parent ++ [x])
      · have habove₂ : (t₁.set (parent ++ [x]) (some (.file text))).get?
            (parent ++ [name]).dropLast = some .folder := by
          rw [FileTree.get?_set_of_ne _ _ (by simp)]
          exact habove name
        have hrename := FileTree.rename_eq (FileTree.get?_set_self ..)
          (show (t₁.set (parent ++ [x]) _).isLocked (parent ++ [x]) = false from
            ((hfree x).2 hfree₁).2) (by simp) habove₂
        have hfree₂ : (t₁.set (parent ++ [x]) (some (.file text))).Free (parent ++ [name]) ↔
            d.tree.Free (parent ++ [name]) :=
          (FileTree.free_congr (FileTree.get?_set_of_ne _ _ hne.symm) rfl).trans (hfree name)
        simp only [hwrite.1 ((hfree x).2 hfree₁)]
        by_cases htarget : d.tree.Free (parent ++ [name])
        · simp only [hrename.1 (hfree₂.2 htarget)]
          refine Or.inl ⟨⟨hpassable, htemporary ▸ hfree₁, htarget⟩, trivial, text, t₁, rfl, rfl, ?_⟩
          rw [stored, htemporary]
        · simp only [hrename.2 (mt hfree₂.1 htarget)]
          exact Or.inr ⟨fun h => htarget h.1.target, ⟨_, rfl⟩,
            (FileTree.get?_set_of_ne _ _ hne.symm).trans (hfile name)⟩
      · simp only [hwrite.2 (mt (hfree x).1 hfree₁)]
        exact Or.inr ⟨fun h => hfree₁ (htemporary ▸ h.1.temporary), ⟨_, rfl⟩, hfile name⟩

/-- With a layer that reads back what it writes, settings are stored wherever that is possible, and
read from where they were stored. -/
theorem load_of_readsBack {c : Settings} (hreads : layer.ReadsBack c) {location : Location}
    (hname : location ≠ []) {d : Disk} (hwritable : IsWritable d.tree location) (root : String)
    (now : Nat) :
    (store layer root c location now d).result = .ok () ∧ ∀ instant,
      (load layer root location instant (store layer root c location now d).state).result =
        .ok c := by
  rcases store_ends layer root c hname now d with
    ⟨-, hresult, text, t, htext, -, htree⟩ | ⟨hnot, -, -⟩
  · refine ⟨hresult, fun instant => load_of_file ?_ (hreads.read?_eq htext) root instant⟩
    rw [htree]
    exact FileTree.get?_set_self ..
  · obtain ⟨text, htext, -⟩ := hreads
    exact absurd ⟨hwritable, Option.isSome_iff_exists.2 ⟨text, htext⟩⟩ hnot

/-- **Settings that were stored are loaded.**  With a layer that reads back what it writes, settings
are stored wherever that is possible, and loading gives the same settings, whatever the file held
before.  With any layer, storing succeeds exactly if there is a text for the settings and a place
for the files; then no temporary file is left, and the text of no other file has changed.  If it
fails, what stands at the location is what stood there before, whichever step it was. -/
theorem load_of_store (layer : Layer ν) (root : String) (c : Settings) {location : Location}
    (hname : location ≠ []) (now : Nat) (d : Disk) :
    let ended := store layer root c location now d
    (layer.ReadsBack c → IsWritable d.tree location → ended.result = .ok () ∧
        ∀ instant, (load layer root location instant ended.state).result = .ok c) ∧
      temporary location ≠ location ∧
      (ended.result = .ok () ↔
        IsWritable d.tree location ∧ (layer.write? c.outline).isSome = true) ∧
      (ended.result = .ok () → ended.state.tree.exists? (temporary location) = false ∧
        ∀ l, l ≠ location → l ≠ temporary location →
          ended.state.tree.text? l = d.tree.text? l) ∧
      ∀ fault, ended.result = .error fault →
        ended.state.tree.get? location = d.tree.get? location := by
  intro ended
  have hne := temporary_ne hname
  refine ⟨fun hreads hwritable => load_of_readsBack hreads hname hwritable root now, hne, ?_⟩
  rcases store_ends layer root c hname now d with
    ⟨hwritable, hresult, text, t, htext, hfolders, htree⟩ | ⟨hnot, ⟨fault, hresult⟩, hkept⟩
  · refine ⟨iff_of_true hresult ⟨hwritable, Option.isSome_iff_exists.2 ⟨text, htext⟩⟩,
      fun _ => ⟨?_, fun l hl hl' => ?_⟩, fun fault h => ?_⟩
    · rw [FileTree.exists?, htree, stored, FileTree.get?_set_of_ne _ _ hne,
        FileTree.get?_set_self]
      rfl
    · rw [← FileTree.text?_makeFolders hfolders, FileTree.text?, FileTree.text?, htree, stored,
        FileTree.get?_set_of_ne _ _ hl, FileTree.get?_set_of_ne _ _ hl',
        FileTree.get?_set_of_ne _ _ hl']
    · rw [hresult] at h
      cases h
  · have hfailed : ended.result ≠ .ok () := fun h => by
      rw [hresult] at h
      cases h
    exact ⟨iff_of_false hfailed hnot, fun h => absurd h hfailed, fun _ _ => hkept⟩

/-- A version that looks like a number and a section without fields replace what the file held; and
what it held stays if the file is locked, so that the temporary file cannot be put in its place. -/
theorem load_of_store_over_interval :
    let c : Settings := ⟨some ⟨some "1.0"⟩, some ⟨none, none⟩, none, none⟩
    let layer := Layer.ofText "protocol:\n  expectedVersion: '1.0'\npolling: \x7b\x7d\n" c
    let d : Disk :=
      ⟨FileTree.empty.set ["c.yaml"] (some (.file "polling:\n  intervalMs: 5\n")), []⟩
    let locked : Disk := { d with tree := { d.tree with isLocked := (· == ["c.yaml"]) } }
    (load layer "" ["c.yaml"] 0 (store layer "" c ["c.yaml"] 0 d).state).result = .ok c ∧
      (store layer "" c ["c.yaml"] 0 d).state.tree.exists? (temporary ["c.yaml"]) = false ∧
      (store layer "" c ["c.yaml"] 0 locked).result = .error (.rename ["c.yaml"]) ∧
      (store layer "" c ["c.yaml"] 0 locked).state.tree.get? ["c.yaml"] =
        some (.file "polling:\n  intervalMs: 5\n") := by
  intro c layer d locked
  have hwritable : IsWritable d.tree ["c.yaml"] := by
    refine ⟨fun l hl => ?_, by decide +kernel, by decide +kernel⟩
    obtain rfl := List.prefix_nil.1 hl
    exact Or.inl rfl
  have hlocked : (store layer "" c ["c.yaml"] 0 locked).result = .error (.rename ["c.yaml"]) := rfl
  obtain ⟨hstored, -, -, hclean, -⟩ :=
    load_of_store layer "" c (by decide : ["c.yaml"] ≠ []) 0 d
  obtain ⟨-, -, -, -, hkept⟩ := load_of_store layer "" c (by decide : ["c.yaml"] ≠ []) 0 locked
  obtain ⟨hresult, hload⟩ := hstored (Layer.readsBack_ofText _ c) hwritable
  exact ⟨hload 0, (hclean hresult).1, hlocked, (hkept _ hlocked).trans rfl⟩

end Settings
end Arbor

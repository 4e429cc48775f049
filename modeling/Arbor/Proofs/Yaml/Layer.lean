/-
# The layer of YAML reads back what it writes

The text of settings is cut into the tokens of its fields and sections, line by line
(`yields_fields`, `yields_sections`), and from these the document is put together
(`isEntry_field`, `isEntry_section`).  Fields stand two columns right of the names of sections, so
a field belongs to the section above it and a section to no other.

All that is needed of the names is that they consist of letters and digits.  The texts can be any:
that is what the four ways of writing a text are for.

So the layer reads back what it writes (`layer_readsBack`), and settings that were stored with it
are loaded (`load_of_writable`).
-/

import Arbor.Proofs.Settings.Storing
import Arbor.Proofs.Yaml.Cut
import Arbor.Proofs.Yaml.Document
import Arbor.Proofs.Yaml.Mapping

namespace Arbor

/-! ## Values -/

namespace Setting

/-- The text of what a field is set to. -/
def chars : Setting → List Char
  | .text s => (Yaml.write 4 s).toList
  | .number n => (toString n).toList
  | .flag b => if b then "true".toList else "false".toList

/-- The token of what a field is set to, at a column. -/
def token (column : Nat) : Setting → Yaml.Token
  | .text s => ⟨.scalar (Yaml.styleOf s == .plain) (Yaml.styleOf s != .block) s, column, false⟩
  | .number n => ⟨.scalar true true (toString n), column, false⟩
  | .flag b => ⟨.scalar true true (if b then "true" else "false"), column, false⟩

end Setting

namespace Yaml

theorem isUnquoted_number (n : UInt64) : IsUnquoted (toString n).toList := by
  have hchars : (toString n).toList = Nat.toDigits 10 n.toNat := Nat.toList_repr
  rw [hchars]
  refine isUnquoted_of_isAlphanum Nat.toDigits_ne_nil fun c hc => ?_
  rw [Char.isAlphanum, Literal.isDigit_of_mem_toDigits hc, Bool.or_true]

theorem isUnquoted_flag (b : Bool) :
    IsUnquoted (if b then "true".toList else "false".toList) := by
  cases b
  · exact isUnquoted_of_isAlphanum (by decide) (List.all_eq_true.1 (by decide))
  · exact isUnquoted_of_isAlphanum (by decide) (List.all_eq_true.1 (by decide))

variable {rest : List Char} {column : Nat} {blocks : List Nat} {ts : List Token}

/-- What a field is set to is cut off, with the line break behind it. -/
theorem yields_setting (v : Setting) (hrest : Outdented 3 rest)
    (h : Yields rest 0 true (2 :: blocks) ts) :
    Yields (terminated v.chars ++ rest) column false (2 :: blocks) (v.token column :: ts) := by
  have hplain {s : List Char} (hs : IsUnquoted s) :
      Yields (terminated s ++ rest) column false (2 :: blocks)
        (⟨.scalar true true (String.ofList s), column, false⟩ :: ts) := by
    rw [terminated_of_not_mem hs.not_mem_break, List.append_assoc]
    exact yields_unquoted hs hrest h
  cases v with
  | text s => exact yields_write s hrest h
  | number n =>
    have hyields := hplain (isUnquoted_number n)
    rwa [String.ofList_toList] at hyields
  | flag b =>
    have hyields := hplain (isUnquoted_flag b)
    cases b <;> exact hyields

/-! ## Names -/

/-- A name of letters and digits. -/
structure IsName (name : String) : Prop where
  ne_nil : name.toList ≠ []
  isAlphanum : ∀ c ∈ name.toList, c.isAlphanum = true

/-- Every section and every field has a name of letters and digits. -/
def IsNamed (o : Outline) : Prop := ∀ s ∈ o, IsName s.1 ∧ ∀ f ∈ s.2, IsName f.1

instance (name : String) : Decidable (IsName name) :=
  decidable_of_iff (name.toList ≠ [] ∧ name.toList.all Char.isAlphanum = true)
    ⟨fun h => ⟨h.1, List.all_eq_true.1 h.2⟩, fun h => ⟨h.ne_nil, List.all_eq_true.2 h.isAlphanum⟩⟩

/-! ## Fields -/

/-- The line of a field, or its lines. -/
def fieldChars (f : String × Setting) : List Char :=
  List.replicate 2 ' ' ++ (f.1.toList ++ ':' :: ' ' :: terminated f.2.chars)

theorem toList_writeField (f : String × Setting) : (writeField f).toList = fieldChars f := by
  obtain ⟨name, v⟩ := f
  have hline (value : String) : ("  " ++ name ++ ": " ++ value ++
      if value.toList.getLast? = some '\n' then "" else "\n").toList =
        List.replicate 2 ' ' ++ (name.toList ++ ':' :: ' ' :: terminated value.toList) := by
    rw [terminated]
    split <;> simp
  cases v with
  | text s => exact hline (Yaml.write 4 s)
  | number n => exact hline (toString n)
  | flag b => cases b <;> exact hline _

/-- The tokens of a field. -/
def fieldTokens (f : String × Setting) : List Token :=
  [⟨.scalar true true f.1, 2, true⟩, ⟨.colon, 2 + f.1.toList.length, false⟩,
    f.2.token (2 + f.1.toList.length + 2)]

/-- A name is further left than the values of fields. -/
theorem outdented_name {name : String} (hname : IsName name) {width : Nat} (hwidth : width < 3)
    (rest : List Char) : Outdented 3 (List.replicate width ' ' ++ (name.toList ++ rest)) := by
  obtain ⟨c, t, hct⟩ := List.exists_cons_of_ne_nil hname.ne_nil
  have hc : c.isAlphanum = true := hname.isAlphanum c (hct ▸ List.mem_cons_self)
  rw [hct, List.cons_append]
  refine .line (t ++ rest) hwidth (ne_of_isAlphanum hc (by decide)) ?_
  rw [isBlank, beq_eq_false_iff_ne.2 (ne_of_isAlphanum hc (by decide)),
    beq_eq_false_iff_ne.2 (ne_of_isAlphanum hc (by decide))]
  rfl

/-- **A field is cut off**, and opens the collection of its section or goes on with it. -/
theorem yields_field {f : String × Setting} (hname : IsName f.1)
    (hblocks : opened 2 blocks = [2, 0]) (hrest : Outdented 3 rest)
    (h : Yields rest 0 true [2, 0] ts) :
    Yields (fieldChars f ++ rest) 0 true blocks (fieldTokens f ++ ts) := by
  have hvalue : Yields (terminated f.2.chars ++ rest) (2 + f.1.toList.length + 2) false [2, 0]
      (f.2.token (2 + f.1.toList.length + 2) :: ts) := yields_setting f.2 hrest h
  rw [← hblocks, ← yields_blank_iff] at hvalue
  have hkey := yields_key hname.ne_nil hname.isAlphanum rfl hvalue
  rw [String.ofList_toList] at hkey
  rw [fieldChars, List.append_assoc, yields_blanks_iff, List.append_assoc]
  exact hkey

/-- Columns of block collections to which both a section and a field may be added. -/
def IsOpen (blocks : List Nat) : Prop := opened 0 blocks = [0] ∧ opened 2 blocks = [2, 0]

theorem isOpen_section : IsOpen [0] := ⟨rfl, rfl⟩

theorem isOpen_field : IsOpen [2, 0] := ⟨rfl, rfl⟩

/-- **Fields are cut off one after another.** -/
theorem yields_fields {fs : List (String × Setting)} (hnames : ∀ f ∈ fs, IsName f.1)
    (hblocks : IsOpen blocks) (hrest : Outdented 3 rest)
    (h : ∀ blocks, IsOpen blocks → Yields rest 0 true blocks ts) :
    Yields (fs.flatMap fieldChars ++ rest) 0 true blocks (fs.flatMap fieldTokens ++ ts) := by
  induction fs generalizing blocks with
  | nil => exact h blocks hblocks
  | cons f fs ih =>
    obtain ⟨hname, hnames⟩ := List.forall_mem_cons.1 hnames
    have hnext : Outdented 3 (fs.flatMap fieldChars ++ rest) := by
      cases fs with
      | nil => exact hrest
      | cons g fs =>
        rw [List.flatMap_cons, fieldChars, List.append_assoc, List.append_assoc, List.append_assoc]
        exact outdented_name (hnames g List.mem_cons_self) (by decide) _
    rw [List.flatMap_cons, List.flatMap_cons, List.append_assoc, List.append_assoc]
    exact yields_field hname hblocks.2 hnext (ih hnames isOpen_field)

/-! ## Sections -/

/-- The lines of a section. -/
def sectionChars (s : String × SectionOutline) : List Char :=
  s.1.toList ++ ':' ::
    if s.2.isEmpty then [' ', '\x7b', '\x7d', '\n'] else '\n' :: s.2.flatMap fieldChars

/-- The tokens of a section. -/
def sectionTokens (s : String × SectionOutline) : List Token :=
  ⟨.scalar true true s.1, 0, true⟩ :: ⟨.colon, s.1.toList.length, false⟩ ::
    if s.2.isEmpty then
      [⟨.openMap, s.1.toList.length + 2, false⟩, ⟨.closeMap, s.1.toList.length + 3, false⟩]
    else s.2.flatMap fieldTokens

theorem toList_join_map {α : Type} (f : α → String) (as : List α) :
    (String.join (as.map f)).toList = as.flatMap fun a => (f a).toList := by
  rw [String.toList_join, List.flatMap_map]

theorem toList_writeSection (s : String × SectionOutline) :
    (writeSection s).toList = sectionChars s := by
  rw [writeSection, sectionChars]
  split
  · simp
  · rw [String.toList_append, String.toList_append, toList_join_map]
    simp [toList_writeField]

/-- **A section is cut off**, and is no part of the section above it. -/
theorem yields_section {s : String × SectionOutline} (hname : IsName s.1)
    (hnames : ∀ f ∈ s.2, IsName f.1) (hblocks : opened 0 blocks = [0]) (hrest : Outdented 3 rest)
    (h : ∀ blocks, IsOpen blocks → Yields rest 0 true blocks ts) :
    Yields (sectionChars s ++ rest) 0 true blocks (sectionTokens s ++ ts) := by
  obtain ⟨name, fs⟩ := s
  rw [sectionChars, sectionTokens, List.append_assoc]
  have hkey {g : List Char} {more : List Token} (hgap : isGap g = true)
      (hyields : Yields g (name.toList.length + 1) false [0] more) :
      Yields (name.toList ++ ':' :: g) 0 true blocks
        (⟨.scalar true true name, 0, true⟩ :: ⟨.colon, name.toList.length, false⟩ :: more) := by
    rw [← hblocks, ← Nat.zero_add name.toList.length] at hyields
    have hkey := yields_key hname.ne_nil hname.isAlphanum hgap hyields
    rwa [String.ofList_toList, Nat.zero_add] at hkey
  cases fs with
  | nil => exact hkey rfl (yields_blank_iff.2 (yields_braces (h [0] isOpen_section)))
  | cons f fs => exact hkey rfl (yields_break (yields_fields hnames isOpen_section hrest h))

/-- **Sections are cut off one after another.** -/
theorem yields_sections {o : Outline} (hnamed : IsNamed o) (hblocks : opened 0 blocks = [0]) :
    Yields (o.flatMap sectionChars) 0 true blocks (o.flatMap sectionTokens) := by
  induction o generalizing blocks with
  | nil => exact yields_nil_iff.2 rfl
  | cons s o ih =>
    obtain ⟨hs, ho⟩ := List.forall_mem_cons.1 hnamed
    have hnext : Outdented 3 (o.flatMap sectionChars) := by
      cases o with
      | nil => exact .nil
      | cons t o =>
        rw [List.flatMap_cons, sectionChars, List.append_assoc]
        exact outdented_name (ho t List.mem_cons_self).1 (show 0 < 3 by decide) _
    rw [List.flatMap_cons, List.flatMap_cons]
    exact yields_section hs.1 hs.2 hblocks hnext fun blocks hblocks => ih ho hblocks.1

/-! ## The document -/

theorem isEntry_field (f : String × Setting) :
    IsEntry 2 (f.1, f.2.toYaml) (fieldTokens f) := by
  obtain ⟨name, v⟩ := f
  cases v <;> exact isEntry_scalar ..

theorem isEntry_section (s : String × SectionOutline) :
    IsEntry 0 (s.1, sectionYaml s.2) (sectionTokens s) := by
  obtain ⟨name, fs⟩ := s
  cases fs with
  | nil => exact isEntry_braces ..
  | cons f fs =>
    exact isEntry_map name true _ (by decide) (by simp) fun f _ => isEntry_field f

/-- **The document is put together** from the tokens of its sections. -/
theorem readBlock?_sections {o : Outline} (hne : o ≠ []) :
    readBlock? (3 * (o.flatMap sectionTokens).length + 1) (o.flatMap sectionTokens) =
      some (ofOutline o, []) := by
  have hentries : ∀ s ∈ o, IsEntry 0 (s.1, sectionYaml s.2) (sectionTokens s) :=
    fun s _ => isEntry_section s
  have hread : readEntries (3 * (o.flatMap sectionTokens).length) 0
      (o.flatMap sectionTokens ++ []) = some (o.map fun s => (s.1, sectionYaml s.2), []) :=
    readEntries_flatMap hne hentries (by simp) (by omega)
  obtain ⟨key, plain, colon, more, hfirst⟩ := exists_key hne hentries []
  rw [List.append_nil] at hfirst hread
  rw [hfirst] at hread ⊢
  simp only [List.length_cons] at hread ⊢
  simp [readBlock?, key?, hread, ofOutline]

/-! ## The names of the schema -/

theorem isNamed_outline (c : Settings) : IsNamed c.outline := by
  have hsections : ∀ name ∈ Settings.sectionNames, IsName name := by decide
  have hfields : ∀ names ∈ Settings.fieldNames, ∀ name ∈ names, IsName name := by decide
  obtain ⟨hkeys, hnames⟩ := Settings.keys_outline c
  intro s hs
  refine ⟨hsections _ (hkeys.subset (List.mem_map_of_mem hs)), fun f hf => ?_⟩
  obtain ⟨names, hmem, hsublist⟩ := hnames s hs
  exact hfields names hmem _ (hsublist.subset (List.mem_map_of_mem hf))

/-! ## The text -/

theorem isShown_of_mem_chars {v : Setting} {c : Char} (h : c ∈ v.chars) : isShown c = true := by
  cases v with
  | text s => exact isShown_of_mem_write h
  | number n => exact ((isUnquoted_number n).shown c h).1
  | flag b => exact ((isUnquoted_flag b).shown c h).1

theorem isShown_of_mem_name {name : String} (hname : IsName name) {c : Char}
    (h : c ∈ name.toList) : isShown c = true :=
  isShown_of_isAlphanum (hname.isAlphanum c h)

theorem isShown_of_mem_fieldChars {f : String × Setting} (hname : IsName f.1) {c : Char}
    (h : c ∈ fieldChars f) : isShown c = true := by
  rw [fieldChars] at h
  rcases List.mem_append.1 h with h | h
  · rw [List.eq_of_mem_replicate h]
    rfl
  rcases List.mem_append.1 h with h | h
  · exact isShown_of_mem_name hname h
  rcases List.mem_cons.1 h with rfl | h
  · rfl
  rcases List.mem_cons.1 h with rfl | h
  · rfl
  rw [terminated] at h
  split at h
  · exact isShown_of_mem_chars h
  · rcases List.mem_append.1 h with h | h
    · exact isShown_of_mem_chars h
    · rw [List.mem_singleton.1 h]
      rfl

/-- Everything that is written shows. -/
theorem isShown_of_mem_sectionChars {s : String × SectionOutline} (hname : IsName s.1)
    (hnames : ∀ f ∈ s.2, IsName f.1) {c : Char} (h : c ∈ sectionChars s) : isShown c = true := by
  rw [sectionChars] at h
  rcases List.mem_append.1 h with h | h
  · exact isShown_of_mem_name hname h
  rcases List.mem_cons.1 h with rfl | h
  · rfl
  split at h
  · have hbraces : [' ', '\x7b', '\x7d', '\n'].all isShown = true := by decide
    exact List.all_eq_true.1 hbraces c h
  · rcases List.mem_cons.1 h with rfl | h
    · rfl
    · obtain ⟨f, hf, h⟩ := List.mem_flatMap.1 h
      exact isShown_of_mem_fieldChars (hnames f hf) h

/-- **What is written is cut into the tokens of its sections.** -/
theorem tokens?_writeOutline {o : Outline} (hne : o ≠ []) (hnamed : IsNamed o) :
    tokens? (writeOutline o) = some (o.flatMap sectionTokens) := by
  have hchars : (writeOutline o).toList = o.flatMap sectionChars := by
    rw [writeOutline, if_neg (by simpa using hne), toList_join_map]
    simp [toList_writeSection]
  refine tokens?_of_yields (fun d hd => ?_) ?_
  · rw [hchars] at hd
    obtain ⟨s, hs, hd⟩ := List.mem_flatMap.1 hd
    exact isShown_of_mem_sectionChars (hnamed s hs).1 (hnamed s hs).2 hd
  · rw [hchars]
    exact yields_sections hnamed rfl

/-- **What is written is parsed** as the document that was written. -/
theorem parse?_writeOutline {o : Outline} (hnamed : IsNamed o) :
    layer.parse? (writeOutline o) = some (ofOutline o) := by
  by_cases hne : o = []
  · have htokens : tokens? (writeOutline []) =
        some [⟨.openMap, 0, true⟩, ⟨.closeMap, 1, false⟩] := by decide +kernel
    rw [hne]
    show (read? (writeOutline [])).map (·.getD (.map [])) = _
    simp [read?, htokens, readBlock?, key?, readFlow, readFlowEntries, ofOutline]
  · have htokens : (o.flatMap sectionTokens).isEmpty = false := by
      obtain ⟨s, rest, rfl⟩ := List.exists_cons_of_ne_nil hne
      rfl
    have hread : read? (writeOutline o) = some (some (ofOutline o)) := by
      simp only [read?, tokens?_writeOutline hne hnamed, Option.bind_eq_bind, Option.bind_some,
        htokens, readBlock?_sections hne]
      rfl
    show (read? (writeOutline o)).map (·.getD (.map [])) = _
    rw [hread]
    rfl

/-- **What is written is read back**, whatever is set. -/
theorem layer_readsBack (c : Settings) : layer.ReadsBack c :=
  ⟨writeOutline c.outline, rfl, ofOutline c.outline, parse?_writeOutline (isNamed_outline c),
    shows_ofOutline c⟩

/-- **With this layer nothing is left to assume**: settings that were stored are loaded. -/
theorem load_of_writable (c : Settings) {location : Location} (hname : location ≠ [])
    {d : Settings.Disk} (hwritable : Settings.IsWritable d.tree location) (root : String)
    (now instant : Nat) :
    (Settings.load layer root location instant
      (Settings.store layer root c location now d).state).result = .ok c :=
  (Settings.load_of_readsBack (layer_readsBack c) hname hwritable root now).2 instant

end Yaml
end Arbor

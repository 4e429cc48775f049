/-
# The document of settings in YAML

The document of settings has a mapping for each section that is present, with an entry for each
field that is set.  It shows what is set (`shows_ofOutline`): a section without fields and an absent
one stay apart, and so do a text that looks like a number and the number, because texts that could
be taken for something else stand in quotes.

| field | written | read back, because |
| --- | --- | --- |
| text | as a scalar, plain if nothing else has that form | a plain text is not null |
| number | as a plain decimal | the decimal stands for the number |
| flag | as `true` or `false` | each stands for itself |
-/

import Arbor.Proofs.Settings.Document
import Arbor.Proofs.Yaml.Number
import Arbor.Proofs.Yaml.Plain
import Arbor.Yaml.Layer

namespace Arbor

/-! ## Values -/

/-- What a field is set to, in YAML. -/
def Setting.toYaml : Setting → Yaml
  | .text s => .scalar (Yaml.styleOf s == .plain) s
  | .number n => .scalar true (toString n)
  | .flag b => .scalar true (if b then "true" else "false")

namespace Yaml

/-- A text that stands for nothing could be taken for something else, and for no number. -/
theorem ambiguous_of_isNull {s : String} (h : isNull s = true) :
    isAmbiguous s = true ∧ number? s = none := by
  have hall : ∀ t ∈ ["", "~", "null", "Null", "NULL"],
      isAmbiguous t = true ∧ number? t = none := by decide +kernel
  exact hall s (List.contains_iff_mem.1 h)

/-- Texts are not null, for those that could be taken for it stand in quotes. -/
theorem isNull_text (s : String) : form.isNull (Setting.text s).toYaml = false := by
  have hspec := styleOf_spec s
  show form.isNull (.scalar (styleOf s == .plain) s) = false
  cases hstyle : styleOf s with
  | plain =>
    rw [hstyle] at hspec
    refine Bool.eq_false_iff.2 fun hnull => ?_
    have hambiguous := (ambiguous_of_isNull hnull).1
    rw [hspec.2] at hambiguous
    cases hambiguous
  | single => rfl
  | double => rfl
  | block => rfl

/-- **What a field is set to is shown.** -/
theorem showsSetting_toYaml (v : Setting) :
    form.isNull v.toYaml = false ∧ form.ShowsSetting v.toYaml v := by
  cases v with
  | text s => exact ⟨isNull_text s, rfl⟩
  | number n =>
    have hnumber : number? (toString n) = some n.toNat := number?_toString n.toNat
    constructor
    · refine Bool.eq_false_iff.2 fun hnull => ?_
      have hnone := (ambiguous_of_isNull hnull).2
      rw [hnumber] at hnone
      cases hnone
    · show (number? (toString n)).bind Settings.word? = some n
      rw [hnumber]
      exact Settings.word?_toNat n
  | flag b =>
    have hflag : flag? (if b then "true" else "false") = some b := by cases b <;> decide
    exact ⟨by cases b <;> decide, hflag⟩

/-! ## Mappings -/

/-- A mapping shows entries whose names are distinct, whatever is made of their values. -/
theorem showsEntries_map {β : Type} {shows : Yaml → β → Prop} {entries : List (String × β)}
    {f : β → Yaml} (hnodup : (entries.map Prod.fst).Nodup)
    (hshows : ∀ e ∈ entries, form.isNull (f e.2) = false ∧ shows (f e.2) e.2) :
    form.ShowsEntries shows (.map (entries.map fun e => (e.1, f e.2))) entries := by
  have hkeys : ((entries.map fun e => (e.1, f e.2)).map Prod.fst).Nodup := by
    rwa [List.map_map]
  exact Form.showsEntries_of_find? (fun names => if_pos (hkeys.filter names.contains))
    (fun name => Keyed.find?_map f name entries) hshows

/-- The mapping of a section. -/
def sectionYaml (s : SectionOutline) : Yaml := .map (s.map fun f => (f.1, f.2.toYaml))

/-- The document of an outline. -/
def ofOutline (o : Outline) : Yaml := .map (o.map fun s => (s.1, sectionYaml s.2))

/-- **The document shows what is set.** -/
theorem shows_ofOutline (c : Settings) : form.Shows (ofOutline c.outline) c.outline := by
  obtain ⟨hsections, hfields⟩ := Settings.nodup_outline c
  have hsection : ∀ s ∈ c.outline, form.ShowsSection (sectionYaml s.2) s.2 := fun s hs =>
    showsEntries_map (hfields s hs) fun f _ => showsSetting_toYaml f.2
  exact showsEntries_map hsections fun s hs => ⟨rfl, hsection s hs⟩

end Yaml
end Arbor

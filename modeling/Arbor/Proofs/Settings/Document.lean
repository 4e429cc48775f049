/-
# Settings in a document

What is set is an outline: the sections that are present, each with the fields that are set.  A
document *shows* an outline if under every name there is in it what there is in the outline, and
never null in its place.  That is all that is asked of a document for the settings to be read from
it (`settings_of_shows`), in whatever order it has them and whatever else could be read from it.

| in the outline | in the document | read as |
| --- | --- | --- |
| a field that is set | a value that is read as a text, a number or a flag | the same |
| a field that is not set | nothing | unset |
| a section without fields | fields, under no name anything | present, all unset |
| a section that is absent | nothing | absent |

A layer reads settings back if the document that it parses from what it has written shows their
outline (`Layer.ReadsBack`).  However settings are read from texts, some layer reads them so
(`exists_layer`): what holds for every layer holds whatever reads the texts.
-/

import Arbor.Proofs.Keyed
import Arbor.Settings.File
import Mathlib.Data.Option.Basic

namespace Arbor

variable {ν α β : Type}

/-! ## What a document shows -/

namespace Form

variable {form : Form ν}

/-- A value is read as what a field is set to. -/
def ShowsSetting (form : Form ν) (v : ν) : Setting → Prop
  | .text s => form.text? v = some s
  | .number n => form.number? v = some n
  | .flag b => form.flag? v = some b

/-- A value has fields, whichever are asked for.  Under every name there is a value for what is
among the entries, and none for what is not; no such value is null. -/
def ShowsEntries (form : Form ν) (shows : ν → β → Prop) (v : ν) (entries : List (String × β)) :
    Prop :=
  ∃ fields, (∀ names, form.fields? names v = some fields) ∧
    ∀ name, Option.Rel (fun w b => form.isNull w = false ∧ shows w b)
      (Keyed.find? name fields) (Keyed.find? name entries)

/-- A value shows the fields of a section. -/
def ShowsSection (form : Form ν) (v : ν) (s : SectionOutline) : Prop :=
  form.ShowsEntries form.ShowsSetting v s

/-- A value shows an outline. -/
def Shows (form : Form ν) (v : ν) (o : Outline) : Prop := form.ShowsEntries form.ShowsSection v o

/-- Fields show the entries if what is found under every name is made of what there is in the
entries. -/
theorem showsEntries_of_find? {shows : ν → β → Prop} {v : ν} {entries : List (String × β)}
    {fields : List (String × ν)} {f : β → ν} (hfields : ∀ names, form.fields? names v = some fields)
    (hfind : ∀ name, Keyed.find? name fields = (Keyed.find? name entries).map f)
    (hshows : ∀ e ∈ entries, form.isNull (f e.2) = false ∧ shows (f e.2) e.2) :
    form.ShowsEntries shows v entries := by
  refine ⟨fields, hfields, fun name => ?_⟩
  rw [hfind]
  cases hentry : Keyed.find? name entries with
  | none => exact .none
  | some b => exact .some (hshows (name, b) (Keyed.mem_of_find? hentry))

/-- **A field is read** as what is set, if that is what is found under its name. -/
theorem field_of_rel {shows : ν → β → Prop} {name : String} {fields : List (String × ν)}
    {o : Option α} {f : α → β} {read : ν → Option α}
    (h : Option.Rel (fun w b => form.isNull w = false ∧ shows w b) (Keyed.find? name fields)
      (o.map f))
    (hread : ∀ w a, shows w (f a) → read w = some a) : form.field read name fields = some o := by
  rw [field]
  generalize Keyed.find? name fields = found at h
  cases o with
  | none => cases h with
    | none => rfl
  | some a => cases h with
    | @some w _ hw =>
      simp only [hw.1, hread w a hw.2, Bool.false_eq_true, if_false, Option.map_some]

end Form

namespace Settings

/-! ## Outlines -/

/-- The names of the sections. -/
def sectionNames : List String := ["protocol", "polling", "query", "logging"]

/-- The names of the fields, section by section. -/
def fieldNames : List (List String) :=
  [["expectedVersion"], ["intervalMs", "defaultTimeoutMs"],
    ["largeResultWarning", "skipMalformedNodes"], ["level", "dir", "json"]]

theorem keys_entry (name : String) (f : α → β) (o : Option α) :
    ((entry name f o).map Prod.fst).Sublist [name] := by
  cases o with
  | none => exact List.nil_sublist _
  | some a => exact List.Sublist.refl _

theorem exists_of_mem_entry {name : String} {f : α → β} {o : Option α} {e : String × β}
    (h : e ∈ entry name f o) : ∃ a, e.2 = f a := by
  cases o with
  | none => exact absurd h List.not_mem_nil
  | some a => exact ⟨a, by rw [List.mem_singleton.1 h]⟩

/-- **Names stand in the order of the schema**, those of sections and those of fields. -/
theorem keys_outline (c : Settings) :
    (c.outline.map Prod.fst).Sublist sectionNames ∧
      ∀ s ∈ c.outline, ∃ names ∈ fieldNames, (s.2.map Prod.fst).Sublist names := by
  rw [outline]
  constructor
  · simp only [List.map_append]
    exact (((keys_entry _ _ _).append (keys_entry _ _ _)).append
      (keys_entry _ _ _)).append (keys_entry _ _ _)
  · intro s hs
    simp only [List.mem_append] at hs
    rcases hs with ((hs | hs) | hs) | hs
    · obtain ⟨a, ha⟩ := exists_of_mem_entry hs
      refine ⟨["expectedVersion"], by decide, ?_⟩
      rw [ha]
      exact keys_entry _ _ _
    · obtain ⟨a, ha⟩ := exists_of_mem_entry hs
      refine ⟨["intervalMs", "defaultTimeoutMs"], by decide, ?_⟩
      rw [ha, pollingOutline, List.map_append]
      exact (keys_entry _ _ _).append (keys_entry _ _ _)
    · obtain ⟨a, ha⟩ := exists_of_mem_entry hs
      refine ⟨["largeResultWarning", "skipMalformedNodes"], by decide, ?_⟩
      rw [ha, queryOutline, List.map_append]
      exact (keys_entry _ _ _).append (keys_entry _ _ _)
    · obtain ⟨a, ha⟩ := exists_of_mem_entry hs
      refine ⟨["level", "dir", "json"], by decide, ?_⟩
      rw [ha, loggingOutline, List.map_append, List.map_append]
      exact ((keys_entry _ _ _).append (keys_entry _ _ _)).append (keys_entry _ _ _)

/-- No name stands twice. -/
theorem nodup_outline (c : Settings) :
    (c.outline.map Prod.fst).Nodup ∧ ∀ s ∈ c.outline, (s.2.map Prod.fst).Nodup := by
  have hsections : sectionNames.Nodup := by decide
  have hfields : ∀ names ∈ fieldNames, names.Nodup := by decide
  obtain ⟨hkeys, hnames⟩ := keys_outline c
  refine ⟨hkeys.nodup hsections, fun s hs => ?_⟩
  obtain ⟨names, hmem, hsublist⟩ := hnames s hs
  exact hsublist.nodup (hfields names hmem)

/-! What is found under the names of the schema is what is set. -/

theorem find?_entry (name other : String) (f : α → β) (o : Option α) :
    Keyed.find? name (entry other f o) = if other = name then o.map f else none := by
  cases o with
  | none => simp [entry, Keyed.find?]
  | some a => rfl

theorem find?_protocolOutline (s : ProtocolSettings) :
    Keyed.find? "expectedVersion" (protocolOutline s) = s.expectedVersion.map .text := by
  simp [protocolOutline, find?_entry]

theorem find?_pollingOutline (s : PollingSettings) :
    Keyed.find? "intervalMs" (pollingOutline s) = s.intervalMs.map .number ∧
      Keyed.find? "defaultTimeoutMs" (pollingOutline s) = s.defaultTimeoutMs.map .number := by
  simp [pollingOutline, Keyed.find?_append, find?_entry]

theorem find?_queryOutline (s : QuerySettings) :
    Keyed.find? "largeResultWarning" (queryOutline s) = s.largeResultWarning.map .number ∧
      Keyed.find? "skipMalformedNodes" (queryOutline s) = s.skipMalformedNodes.map .flag := by
  simp [queryOutline, Keyed.find?_append, find?_entry]

theorem find?_loggingOutline (s : LoggingSettings) :
    Keyed.find? "level" (loggingOutline s) = s.level.map .text ∧
      Keyed.find? "dir" (loggingOutline s) = s.dir.map .text ∧
      Keyed.find? "json" (loggingOutline s) = s.json.map .flag := by
  simp [loggingOutline, Keyed.find?_append, find?_entry]

theorem find?_outline (c : Settings) :
    Keyed.find? "protocol" c.outline = c.protocol.map protocolOutline ∧
      Keyed.find? "polling" c.outline = c.polling.map pollingOutline ∧
      Keyed.find? "query" c.outline = c.query.map queryOutline ∧
      Keyed.find? "logging" c.outline = c.logging.map loggingOutline := by
  simp [outline, Keyed.find?_append, find?_entry]

/-! ## Settings from a document -/

section Reading

variable {form : Form ν} {v : ν}

theorem protocol_of_shows {s : ProtocolSettings} (h : form.ShowsSection v (protocolOutline s)) :
    form.protocol v = some s := by
  obtain ⟨fields, hfields, hfound⟩ := h
  have hversion := hfound "expectedVersion"
  rw [find?_protocolOutline] at hversion
  simp only [Form.protocol, hfields, Option.bind_eq_bind, Option.bind_some,
    Form.field_of_rel hversion fun _ _ h => h]
  rfl

theorem polling_of_shows {s : PollingSettings} (h : form.ShowsSection v (pollingOutline s)) :
    form.polling v = some s := by
  obtain ⟨fields, hfields, hfound⟩ := h
  have hinterval := hfound "intervalMs"
  have htimeout := hfound "defaultTimeoutMs"
  rw [(find?_pollingOutline s).1] at hinterval
  rw [(find?_pollingOutline s).2] at htimeout
  simp only [Form.polling, hfields, Option.bind_eq_bind, Option.bind_some,
    Form.field_of_rel hinterval fun _ _ h => h, Form.field_of_rel htimeout fun _ _ h => h]
  rfl

theorem query_of_shows {s : QuerySettings} (h : form.ShowsSection v (queryOutline s)) :
    form.query v = some s := by
  obtain ⟨fields, hfields, hfound⟩ := h
  have hlimit := hfound "largeResultWarning"
  have hlenient := hfound "skipMalformedNodes"
  rw [(find?_queryOutline s).1] at hlimit
  rw [(find?_queryOutline s).2] at hlenient
  simp only [Form.query, hfields, Option.bind_eq_bind, Option.bind_some,
    Form.field_of_rel hlimit fun _ _ h => h, Form.field_of_rel hlenient fun _ _ h => h]
  rfl

theorem logging_of_shows {s : LoggingSettings} (h : form.ShowsSection v (loggingOutline s)) :
    form.logging v = some s := by
  obtain ⟨fields, hfields, hfound⟩ := h
  have hlevel := hfound "level"
  have hdir := hfound "dir"
  have hjson := hfound "json"
  rw [(find?_loggingOutline s).1] at hlevel
  rw [(find?_loggingOutline s).2.1] at hdir
  rw [(find?_loggingOutline s).2.2] at hjson
  simp only [Form.logging, hfields, Option.bind_eq_bind, Option.bind_some,
    Form.field_of_rel hlevel fun _ _ h => h, Form.field_of_rel hdir fun _ _ h => h,
    Form.field_of_rel hjson fun _ _ h => h]
  rfl

/-- **Settings are read from every document that shows what is set.** -/
theorem settings_of_shows {c : Settings} (h : form.Shows v c.outline) :
    form.settings v = some c := by
  obtain ⟨fields, hfields, hfound⟩ := h
  obtain ⟨hprotocol, hpolling, hquery, hlogging⟩ := find?_outline c
  have hprotocol := hprotocol ▸ hfound "protocol"
  have hpolling := hpolling ▸ hfound "polling"
  have hquery := hquery ▸ hfound "query"
  have hlogging := hlogging ▸ hfound "logging"
  simp only [Form.settings, hfields, Option.bind_eq_bind, Option.bind_some,
    Form.field_of_rel hprotocol fun _ _ => protocol_of_shows,
    Form.field_of_rel hpolling fun _ _ => polling_of_shows,
    Form.field_of_rel hquery fun _ _ => query_of_shows,
    Form.field_of_rel hlogging fun _ _ => logging_of_shows]
  rfl

end Reading

/-! ## Layers -/

/-- A layer writes settings, and what it parses from what it has written shows what is set in
them. -/
def Layer.ReadsBack (layer : Layer ν) (c : Settings) : Prop :=
  ∃ text, layer.write? c.outline = some text ∧
    ∃ v, layer.parse? text = some v ∧ layer.form.Shows v c.outline

/-- **What was written is read as the same settings.** -/
theorem Layer.ReadsBack.read?_eq {layer : Layer ν} {c : Settings} (h : layer.ReadsBack c)
    {text : String} (htext : layer.write? c.outline = some text) : layer.read? text = some c := by
  obtain ⟨written, hwritten, v, hparsed, hshows⟩ := h
  obtain rfl := Option.some.inj (hwritten.symm.trans htext)
  rw [read?, hparsed]
  exact settings_of_shows hshows

/-! ## Settings in JSON -/

theorem word?_toNat (n : UInt64) : word? n.toNat = some n := by
  rw [word?, if_pos n.toNat_lt]
  exact congrArg some UInt64.ofNat_toNat

theorem showsSetting_toJson (v : Setting) :
    jsonForm.isNull v.toJson = false ∧ jsonForm.ShowsSetting v.toJson v := by
  cases v with
  | text s => exact ⟨rfl, rfl⟩
  | number n => exact ⟨rfl, word?_toNat n⟩
  | flag b => exact ⟨rfl, rfl⟩

/-- An object shows entries whose names are distinct, whatever is made of their values. -/
theorem showsEntries_object {shows : Json → β → Prop} {entries : List (String × β)} {f : β → Json}
    (hnodup : (entries.map Prod.fst).Nodup)
    (hshows : ∀ e ∈ entries, jsonForm.isNull (f e.2) = false ∧ shows (f e.2) e.2) :
    jsonForm.ShowsEntries shows (.object (entries.map fun e => (e.1, f e.2))) entries := by
  refine Form.showsEntries_of_find? (fun _ => rfl) (fun name => ?_) hshows
  have hkeys : ((entries.map fun e => (e.1, f e.2)).map Prod.fst).Nodup := by
    rwa [List.map_map]
  rw [Keyed.find?_ofList_of_nodup hkeys, Keyed.find?_map]

theorem shows_toJson (c : Settings) : jsonForm.Shows c.toJson c.outline := by
  obtain ⟨hsections, hfields⟩ := nodup_outline c
  have hsection : ∀ s ∈ c.outline,
      jsonForm.ShowsSection (.object (s.2.map fun f => (f.1, f.2.toJson))) s.2 := fun s hs =>
    showsEntries_object (hfields s hs) fun f _ => showsSetting_toJson f.2
  exact showsEntries_object (f := fun s => .object (s.map fun f => (f.1, f.2.toJson))) hsections
    fun s hs => ⟨rfl, hsection s hs⟩

/-- **Settings are read back from JSON.** -/
theorem ofJson?_toJson (c : Settings) : ofJson? c.toJson = some c :=
  settings_of_shows (shows_toJson c)

/-- **However settings are read from texts, some layer reads them so.** -/
theorem exists_layer (read : String → Option Settings) :
    ∃ layer : Layer Json, ∀ text, layer.read? text = read text := by
  refine ⟨⟨jsonForm, fun text => (read text).map toJson, fun _ => none⟩, fun text => ?_⟩
  cases hread : read text with
  | none => simp only [Layer.read?, hread, Option.map_none, Option.bind_eq_bind, Option.bind_none]
  | some c =>
    simp only [Layer.read?, hread, Option.map_some, Option.bind_eq_bind, Option.bind_some]
    exact ofJson?_toJson c

/-- A layer that knows one text and the settings in it. -/
def Layer.ofText (text : String) (c : Settings) : Layer Json where
  form := jsonForm
  parse? t := if t = text then some c.toJson else none
  write? o := if o = c.outline then some text else none

theorem Layer.readsBack_ofText (text : String) (c : Settings) : (ofText text c).ReadsBack c :=
  ⟨text, if_pos rfl, c.toJson, if_pos rfl, shows_toJson c⟩

end Settings
end Arbor

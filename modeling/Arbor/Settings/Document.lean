/-
# Settings as documents

How the records of `config/schema` are read from and written to data: names in camel case, unset
fields left out, absent fields unset.

The same settings stand in different kinds of documents.  `Form` says what a kind of document has to
offer for settings to be read from it: texts, numbers, flags, nothing, and the fields of a section.
A field that is null counts as unset, and a field that the schema does not know is passed over.

In JSON a list may stand for a section; it gives the fields in the order of the schema.
-/

import Arbor.Json.Writer
import Arbor.Settings.Basic

namespace Arbor

/-- What settings are read from. -/
structure Form (ν : Type) where
  isNull : ν → Bool
  text? : ν → Option String
  number? : ν → Option UInt64
  flag? : ν → Option Bool
  /-- The fields of a section with such names. -/
  fields? : (names : List String) → ν → Option (List (String × ν))

namespace Form

variable {ν α : Type}

/-- A field: unset if it is absent or null.  The outer `none` says that the field is malformed. -/
def field (form : Form ν) (read : ν → Option α) (name : String) (fields : List (String × ν)) :
    Option (Option α) :=
  match Keyed.find? name fields with
  | none => some none
  | some v => if form.isNull v then some none else (read v).map some

/-- The section about the protocol. -/
def protocol (form : Form ν) (v : ν) : Option ProtocolSettings := do
  let fields ← form.fields? ["expectedVersion"] v
  return ⟨← form.field form.text? "expectedVersion" fields⟩

/-- The section about waits. -/
def polling (form : Form ν) (v : ν) : Option PollingSettings := do
  let fields ← form.fields? ["intervalMs", "defaultTimeoutMs"] v
  return ⟨← form.field form.number? "intervalMs" fields,
    ← form.field form.number? "defaultTimeoutMs" fields⟩

/-- The section about queries. -/
def query (form : Form ν) (v : ν) : Option QuerySettings := do
  let fields ← form.fields? ["largeResultWarning", "skipMalformedNodes"] v
  return ⟨← form.field form.number? "largeResultWarning" fields,
    ← form.field form.flag? "skipMalformedNodes" fields⟩

/-- The section about the log. -/
def logging (form : Form ν) (v : ν) : Option LoggingSettings := do
  let fields ← form.fields? ["level", "dir", "json"] v
  return ⟨← form.field form.text? "level" fields, ← form.field form.text? "dir" fields,
    ← form.field form.flag? "json" fields⟩

/-- The settings. -/
def settings (form : Form ν) (v : ν) : Option Settings := do
  let fields ← form.fields? ["protocol", "polling", "query", "logging"] v
  return ⟨← form.field form.protocol "protocol" fields, ← form.field form.polling "polling" fields,
    ← form.field form.query "query" fields, ← form.field form.logging "logging" fields⟩

end Form

/-- What a field can be set to. -/
inductive Setting
  | text (s : String)
  | number (n : UInt64)
  | flag (b : Bool)
deriving DecidableEq

/-- What a field is set to, in JSON. -/
def Setting.toJson : Setting → Json
  | .text s => .str s
  | .number n => .int n.toNat
  | .flag b => .bool b

/-- Fields with what they are set to, those that are set, in the order of the schema. -/
abbrev SectionOutline := List (String × Setting)

/-- The sections that are present, in the order of the schema. -/
abbrev Outline := List (String × SectionOutline)

namespace Settings

/-- An entry among the others, if there is something for it. -/
def entry {α β : Type} (name : String) (f : α → β) : Option α → List (String × β)
  | some a => [(name, f a)]
  | none => []

/-- What is set about the protocol. -/
def protocolOutline (s : ProtocolSettings) : SectionOutline :=
  entry "expectedVersion" .text s.expectedVersion

/-- What is set about waits. -/
def pollingOutline (s : PollingSettings) : SectionOutline :=
  entry "intervalMs" .number s.intervalMs ++ entry "defaultTimeoutMs" .number s.defaultTimeoutMs

/-- What is set about queries. -/
def queryOutline (s : QuerySettings) : SectionOutline :=
  entry "largeResultWarning" .number s.largeResultWarning ++
    entry "skipMalformedNodes" .flag s.skipMalformedNodes

/-- What is set about the log. -/
def loggingOutline (s : LoggingSettings) : SectionOutline :=
  entry "level" .text s.level ++ entry "dir" .text s.dir ++ entry "json" .flag s.json

/-- What is set. -/
def outline (c : Settings) : Outline :=
  entry "protocol" protocolOutline c.protocol ++ entry "polling" pollingOutline c.polling ++
    entry "query" queryOutline c.query ++ entry "logging" loggingOutline c.logging

/-- A number as one of 64 bits without a sign, if there is room for it. -/
def word? (n : Nat) : Option UInt64 :=
  if n < 0x10000000000000000 then some (UInt64.ofNat n) else none

/-- The number in JSON. -/
def jsonNumber? : Json → Option UInt64
  | .int (.ofNat n) => word? n
  | _ => none

/-- Settings in JSON. -/
def jsonForm : Form Json where
  isNull
    | .null => true
    | _ => false
  text?
    | .str s => some s
    | _ => none
  number? := jsonNumber?
  flag?
    | .bool b => some b
    | _ => none
  fields? names
    | .obj entries => some entries
    | .arr items => if items.length ≤ names.length then some (names.zip items) else none
    | _ => none

/-- The settings in a JSON value. -/
def ofJson? (json : Json) : Option Settings := jsonForm.settings json

/-- The JSON form: what is set. -/
def toJson (c : Settings) : Json :=
  .object (c.outline.map fun s => (s.1, .object (s.2.map fun f => (f.1, f.2.toJson))))

end Settings
end Arbor

/-
# Settings completed

There are two ways to deal with a field that is unset: to set it beforehand (`Settings.complete`),
or to take the default where its value is wanted (`Settings.options`).  Both are described here by
what they make of the single fields, whichever sections are present:

| field | set | unset |
| --- | --- | --- |
| directory of the log | kept | left unset |
| any other | kept | set to its default |

`field?_complete` says so in one equation, and `options_eq` that options come from the same fields
and the same defaults.  That completing twice is completing once, and that completed settings give
the same options, then follows without a look at the sections.
-/

import Arbor.Settings.Document

namespace Arbor
namespace Settings

/-- The fields of settings. -/
inductive Field
  | version
  | interval
  | timeout
  | limit
  | lenient
  | level
  | dir
  | json
deriving DecidableEq

namespace Field

/-- What a field holds. -/
abbrev Value : Field → Type
  | version | level | dir => String
  | interval | timeout | limit => UInt64
  | lenient | json => Bool

/-- What a field is set to by default. -/
def default? : (f : Field) → Option f.Value
  | version => some defaultVersion
  | interval => some defaultIntervalMs
  | timeout => some defaultTimeoutMs
  | limit => some defaultLargeResultWarning
  | lenient => some false
  | level => some defaultLevel
  | dir => none
  | json => some false

/-- Every field has a default but the directory of the log. -/
theorem isSome_default?_iff {f : Field} : f.default?.isSome = true ↔ f ≠ .dir := by
  cases f <;> decide

end Field

/-- What a field is set to, unset fields and fields of absent sections alike being unset. -/
def field? (c : Settings) : (f : Field) → Option f.Value
  | .version => c.protocol.bind (·.expectedVersion)
  | .interval => c.polling.bind (·.intervalMs)
  | .timeout => c.polling.bind (·.defaultTimeoutMs)
  | .limit => c.query.bind (·.largeResultWarning)
  | .lenient => c.query.bind (·.skipMalformedNodes)
  | .level => c.logging.bind (·.level)
  | .dir => c.logging.bind (·.dir)
  | .json => c.logging.bind (·.json)

/-- **Completing settings** sets each field that is unset to its default, if it has one. -/
theorem field?_complete (c : Settings) (f : Field) :
    c.complete.field? f = (c.field? f).or f.default? := by
  obtain ⟨protocol, polling, query, logging⟩ := c
  cases f with
  | version => rcases protocol with _ | ⟨_ | v⟩ <;> rfl
  | interval => rcases polling with _ | ⟨_ | n, timeout⟩ <;> rfl
  | timeout => rcases polling with _ | ⟨interval, _ | n⟩ <;> rfl
  | limit => rcases query with _ | ⟨_ | n, lenient⟩ <;> rfl
  | lenient => rcases query with _ | ⟨limit, _ | b⟩ <;> rfl
  | level => rcases logging with _ | ⟨_ | s, dir, json⟩ <;> rfl
  | dir => rcases logging with _ | ⟨level, _ | s, json⟩ <;> rfl
  | json => rcases logging with _ | ⟨level, dir, _ | b⟩ <;> rfl

theorem isSome_field?_complete (c : Settings) {f : Field} (h : f ≠ .dir) :
    (c.complete.field? f).isSome = true := by
  rw [field?_complete, Option.isSome_or, Field.isSome_default?_iff.2 h, Bool.or_true]

/-- Completing changes nothing exactly if every field is set already that has a default. -/
theorem complete_eq_self_iff {c : Settings} :
    c.complete = c ↔ ∀ f ≠ .dir, (c.field? f).isSome = true := by
  constructor
  · intro h f hf
    rw [← h]
    exact isSome_field?_complete c hf
  · intro h
    obtain ⟨protocol, polling, query, logging⟩ := c
    -- a field that is set keeps its section from being absent
    have hversion : (protocol.bind (·.expectedVersion)).isSome = true := h .version (by decide)
    have hinterval : (polling.bind (·.intervalMs)).isSome = true := h .interval (by decide)
    have htimeout : (polling.bind (·.defaultTimeoutMs)).isSome = true := h .timeout (by decide)
    have hlimit : (query.bind (·.largeResultWarning)).isSome = true := h .limit (by decide)
    have hlenient : (query.bind (·.skipMalformedNodes)).isSome = true := h .lenient (by decide)
    have hlevel : (logging.bind (·.level)).isSome = true := h .level (by decide)
    have hjson : (logging.bind (·.json)).isSome = true := h .json (by decide)
    rw [complete, Settings.mk.injEq]
    refine ⟨?_, ?_, ?_, ?_⟩
    · rcases protocol with _ | ⟨_ | v⟩
      · cases hversion
      · cases hversion
      · rfl
    · rcases polling with _ | ⟨_ | i, _ | t⟩ <;>
        first
          | rfl
          | exact absurd hinterval Bool.false_ne_true
          | exact absurd htimeout Bool.false_ne_true
    · rcases query with _ | ⟨_ | n, _ | b⟩ <;>
        first
          | rfl
          | exact absurd hlimit Bool.false_ne_true
          | exact absurd hlenient Bool.false_ne_true
    · rcases logging with _ | ⟨_ | s, dir, _ | j⟩ <;>
        first
          | rfl
          | exact absurd hlevel Bool.false_ne_true
          | exact absurd hjson Bool.false_ne_true

/-- **Options come from the fields**, the defaults standing in for those that are unset. -/
theorem options_eq (c : Settings) :
    c.options =
      { expectedVersion := (c.field? .version).getD defaultVersion
        largeResultWarning := ((c.field? .limit).getD defaultLargeResultWarning).toNat
        skipMalformedNodes := (c.field? .lenient).getD false
        pollInterval := .ofMillis ((c.field? .interval).getD defaultIntervalMs).toNat
        defaultTimeout := .ofMillis ((c.field? .timeout).getD defaultTimeoutMs).toNat } := by
  obtain ⟨protocol, polling, query, logging⟩ := c
  rw [Options.mk.injEq]
  refine ⟨?_, ?_, ?_, ?_, ?_⟩
  · rcases protocol with _ | ⟨_ | v⟩ <;> rfl
  · rcases query with _ | ⟨_ | n, lenient⟩ <;> rfl
  · rcases query with _ | ⟨limit, _ | b⟩ <;> rfl
  · rcases polling with _ | ⟨_ | n, timeout⟩ <;> rfl
  · rcases polling with _ | ⟨interval, _ | n⟩ <;> rfl

/-- Defaults set beforehand are the defaults that stand in. -/
theorem options_complete (c : Settings) : c.complete.options = c.options := by
  simp only [options_eq, field?_complete, Field.default?, Option.getD_or, Option.getD_some]

/-- **The two ways of filling gaps agree.**  Completing keeps every field that is set and sets every
other to its default, all but the directory of the log; it changes nothing the second time; and a
session has the same options whether the settings were completed before or not. -/
theorem complete_agrees_with_options (c : Settings) :
    (∀ f v, c.field? f = some v → c.complete.field? f = some v) ∧
      (∀ f, c.field? f = none → c.complete.field? f = f.default? ∧
        ((c.complete.field? f).isSome = true ↔ f ≠ .dir)) ∧
      c.complete.complete = c.complete ∧ c.complete.options = c.options := by
  refine ⟨fun f v h => ?_, fun f h => ?_, ?_, options_complete c⟩
  · rw [field?_complete, h, Option.some_or]
  · have hdefault : c.complete.field? f = f.default? := by
      rw [field?_complete, h, Option.none_or]
    exact ⟨hdefault, hdefault ▸ Field.isSome_default?_iff⟩
  · exact complete_eq_self_iff.2 fun f hf => isSome_field?_complete c hf

/-- An interval alone, in settings with another section that is present and empty: the interval
stays, the timeout beside it is set, the directory is not, and the options do not change. -/
theorem complete_agrees_slowPolling :
    let c : Settings := ⟨none, some ⟨some 40, none⟩, some .empty, none⟩
    (c.field? .interval = some 40 ∧ c.complete.field? .interval = some 40) ∧
      (c.field? .timeout = none ∧ c.complete.field? .timeout = some 10000) ∧
      (c.field? .dir = none ∧ c.complete.field? .dir = none) ∧
      c.complete.complete = c.complete ∧ c.complete.options = c.options := by
  intro c
  obtain ⟨hkept, hset, htwice, hoptions⟩ := complete_agrees_with_options c
  refine ⟨⟨rfl, hkept .interval 40 rfl⟩, ⟨rfl, (hset .timeout rfl).1⟩, ⟨rfl, (hset .dir rfl).1⟩,
    htwice, hoptions⟩

end Settings
end Arbor

/-
# Findings

`config/validation`: `findings` is `validate`, `isVersion` is `VERSION_PATTERN`, `levels` is
`LOG_LEVELS`.

What is wrong with settings, and what is odd about them.  Only errors keep settings from being used.

- A version has the form `<major>.<minor>`, both runs of decimal digits of any script.
- The interval is not zero; that it is longer than the default timeout is odd.
- A default timeout or a limit on results of zero is odd.
- A level is `trace`, `debug`, `info`, `warn` or `error`, in letters of either case.
-/

import Arbor.Settings.Basic
import Arbor.Text.DecimalDigit

namespace Arbor

/-- Something found in settings: the field, and what there is to say about it. -/
structure Finding where
  path : String
  message : String
deriving DecidableEq

/-- A finding in words. -/
def Finding.text (f : Finding) : String :=
  s!"Config validation error at '{f.path}': {f.message}"

/-- Everything found in settings. -/
structure Findings where
  errors : List Finding
  warnings : List Finding
deriving DecidableEq

/-- Whether the settings can be used. -/
def Findings.isValid (f : Findings) : Bool := f.errors.isEmpty

namespace Settings

/-- A run of digits, at least one, and nothing else. -/
def isDigits (s : List Char) : Bool := !s.isEmpty && s.all Text.isDecimalDigit

/-- A version: digits, a point, digits. -/
def isVersion (version : String) : Bool :=
  let s := version.toList
  isDigits (s.takeWhile Text.isDecimalDigit) &&
    match s.dropWhile Text.isDecimalDigit with
    | '.' :: minor => isDigits minor
    | _ => false

/-- The levels of the log. -/
def levels : List String := ["trace", "debug", "info", "warn", "error"]

/-- Errors about the version. -/
def versionErrors (version : String) : List Finding :=
  if isVersion version then []
  else [⟨"protocol.expectedVersion", s!"'{version}' is not of the form <major>.<minor>"⟩]

/-- Errors about the level. -/
def levelErrors (level : String) : List Finding :=
  if levels.contains level.toLower then []
  else [⟨"logging.level", s!"Unknown level '{level}'. Use one of " ++ ", ".intercalate levels⟩]

/-- Errors about the interval. -/
def intervalErrors (interval : UInt64) : List Finding :=
  if interval = 0 then [⟨"polling.intervalMs", "intervalMs must be > 0"⟩] else []

/-- Warnings about the default timeout. -/
def timeoutWarnings (timeout : UInt64) : List Finding :=
  if timeout = 0 then
    [⟨"polling.defaultTimeoutMs", "A zero timeout makes every wait a single attempt"⟩]
  else []

/-- Warnings about the interval and the default timeout taken together. -/
def paceWarnings (interval timeout : UInt64) : List Finding :=
  if timeout < interval then
    [⟨"polling.intervalMs",
      s!"Interval {interval}ms is longer than the default timeout {timeout}ms"⟩]
  else []

/-- Warnings about the limit on results. -/
def limitWarnings (limit : UInt64) : List Finding :=
  if limit = 0 then
    [⟨"query.largeResultWarning", "Every non-empty result will be reported as too large"⟩]
  else []

/-- What there is to say about a field that is set. -/
def ifSet {α : Type} (field : Option α) (f : α → List Finding) : List Finding :=
  match field with
  | some a => f a
  | none => []

/-- Everything found in settings, section after section. -/
def findings (c : Settings) : Findings :=
  let protocol := c.protocol.getD .empty
  let polling := c.polling.getD .empty
  let query := c.query.getD .empty
  let logging := c.logging.getD .empty
  { errors :=
      ifSet protocol.expectedVersion versionErrors ++ ifSet polling.intervalMs intervalErrors ++
        ifSet logging.level levelErrors
    warnings :=
      ifSet polling.defaultTimeoutMs timeoutWarnings ++
        (ifSet polling.intervalMs fun interval =>
          ifSet polling.defaultTimeoutMs fun timeout => paceWarnings interval timeout) ++
        ifSet query.largeResultWarning limitWarnings }

end Settings
end Arbor

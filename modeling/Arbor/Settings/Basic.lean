/-
# Settings

`ProbeConfig` and its sections in `config/schema`; `complete` is `apply_all_defaults` in
`config/defaults`, and `options` is `from_config` of `SessionOptions` in `introspection/session`.

| section | field | value | default |
| --- | --- | --- | --- |
| `protocol` | `expectedVersion` | text | 1.4 |
| `polling` | `intervalMs` | number | 250 |
| | `defaultTimeoutMs` | number | 10000 |
| `query` | `largeResultWarning` | number | 15 |
| | `skipMalformedNodes` | flag | false |
| `logging` | `level` | text | info |
| | `dir` | text | |
| | `json` | flag | false |

Numbers have 64 bits without a sign.  Every section may be absent and every field unset.  There are
two ways to deal with that: `Settings.complete` sets what is unset, and `Settings.options` takes the
default for what is unset.
-/

import Arbor.Session.Options

namespace Arbor

/-- What is expected of the remote side. -/
structure ProtocolSettings where
  expectedVersion : Option String
deriving DecidableEq

/-- How waits go. -/
structure PollingSettings where
  intervalMs : Option UInt64
  defaultTimeoutMs : Option UInt64
deriving DecidableEq

/-- How queries go. -/
structure QuerySettings where
  largeResultWarning : Option UInt64
  skipMalformedNodes : Option Bool
deriving DecidableEq

/-- What is logged, and where. -/
structure LoggingSettings where
  level : Option String
  dir : Option String
  json : Option Bool
deriving DecidableEq

/-- The settings. -/
structure Settings where
  protocol : Option ProtocolSettings
  polling : Option PollingSettings
  query : Option QuerySettings
  logging : Option LoggingSettings
deriving DecidableEq

/-- No field set. -/
def ProtocolSettings.empty : ProtocolSettings := ⟨none⟩

/-- No field set. -/
def PollingSettings.empty : PollingSettings := ⟨none, none⟩

/-- No field set. -/
def QuerySettings.empty : QuerySettings := ⟨none, none⟩

/-- No field set. -/
def LoggingSettings.empty : LoggingSettings := ⟨none, none, none⟩

namespace Settings

/-- No section present. -/
def empty : Settings := ⟨none, none, none, none⟩

/-- The version of the protocol that is expected by default. -/
def defaultVersion : String := "1.4"

/-- The default pause between attempts, in milliseconds. -/
def defaultIntervalMs : UInt64 := 250

/-- How long a wait lasts by default, in milliseconds. -/
def defaultTimeoutMs : UInt64 := 10000

/-- The default for the number of objects above which there is a warning. -/
def defaultLargeResultWarning : UInt64 := 15

/-- The default level of the log. -/
def defaultLevel : String := "info"

/-- Sets what is unset, apart from the directory of the log, for which there is no default. -/
def complete (c : Settings) : Settings :=
  let protocol := c.protocol.getD .empty
  let polling := c.polling.getD .empty
  let query := c.query.getD .empty
  let logging := c.logging.getD .empty
  { protocol := some ⟨some (protocol.expectedVersion.getD defaultVersion)⟩
    polling := some ⟨some (polling.intervalMs.getD defaultIntervalMs),
      some (polling.defaultTimeoutMs.getD defaultTimeoutMs)⟩
    query := some ⟨some (query.largeResultWarning.getD defaultLargeResultWarning),
      some (query.skipMalformedNodes.getD false)⟩
    logging := some ⟨some (logging.level.getD defaultLevel), logging.dir,
      some (logging.json.getD false)⟩ }

/-- The options of a session; defaults stand in for what is unset. -/
def options (c : Settings) : Options :=
  let protocol := c.protocol.getD .empty
  let polling := c.polling.getD .empty
  let query := c.query.getD .empty
  { expectedVersion := protocol.expectedVersion.getD Options.default.expectedVersion
    largeResultWarning :=
      (query.largeResultWarning.map UInt64.toNat).getD Options.default.largeResultWarning
    skipMalformedNodes := query.skipMalformedNodes.getD Options.default.skipMalformedNodes
    pollInterval := match polling.intervalMs with
      | some ms => .ofMillis ms.toNat
      | none => Options.default.pollInterval
    defaultTimeout := match polling.defaultTimeoutMs with
      | some ms => .ofMillis ms.toNat
      | none => Options.default.defaultTimeout }

end Settings
end Arbor

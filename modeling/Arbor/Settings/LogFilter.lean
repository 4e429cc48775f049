/-
# Log filters

`init_logger` and `init_from_config` in `logging/logger`.

```text
filter    = directive? ("," directive?)*
directive = level | part ("=" level?)? | part part ("=" level?)?
part      = target | "[" anything without brackets "]"
target    = letters, digits, "_", "-" and ":"
level     = trace | debug | info | warn | error | off | 0 to 5
```

Words for levels are in letters of either case.  A filter from the environment is used if it is one;
otherwise the level of the settings, which may be any filter, has to be.
-/

import Arbor.Settings.Basic

namespace Arbor
namespace Settings

/-- A level in a filter. -/
def isFilterLevel (s : List Char) : Bool :=
  ["trace", "debug", "info", "warn", "error", "off", "0", "1", "2", "3", "4", "5"].contains
    (String.ofList s).toLower

/-- A character of a target. -/
def isTargetChar (c : Char) : Bool := c.isAlphanum || c == '_' || c == '-' || c == ':'

/-- What follows the first part of a directive, nothing if it does not begin with a part. -/
def afterPart? : List Char → Option (List Char)
  | '[' :: rest =>
    match rest.dropWhile (· != ']') with
    | ']' :: after => some after
    | _ => none
  | c :: rest => if isTargetChar c then some (rest.dropWhile isTargetChar) else none
  | [] => none

/-- The end of a directive: nothing, or an equals sign and perhaps a level. -/
def isDirectiveEnd : List Char → Bool
  | [] => true
  | '=' :: level => level.isEmpty || isFilterLevel level
  | _ => false

/-- One directive. -/
def isDirective (s : List Char) : Bool :=
  isFilterLevel s ||
    match afterPart? s with
    | none => false
    | some rest => isDirectiveEnd rest || ((afterPart? rest).map isDirectiveEnd).getD false

/-- The parts of a text between commas. -/
def commaParts : List Char → List (List Char)
  | [] => [[]]
  | c :: rest =>
    if c = ',' then [] :: commaParts rest
    else
      match commaParts rest with
      | [] => [[c]]
      | p :: ps => (c :: p) :: ps

/-- A filter: directives apart by commas, empty ones passed over. -/
def isLogFilter (filter : String) : Bool :=
  (commaParts filter.toList).all fun d => d.isEmpty || isDirective d

/-- Why a log cannot be started. -/
inductive LogFault
  | badLevel (level : String)
deriving DecidableEq

/-- The wording of a fault. -/
def LogFault.message : LogFault → String
  | .badLevel level => s!"Invalid log level '{level}'"

/-- A log that was started. -/
structure LogStart where
  /-- The log is in force: there was none before. -/
  installed : Bool
  /-- How many files were made for it. -/
  files : Nat
deriving DecidableEq

/-- Starts the log, given the filter in the environment and whether there is a log already. -/
def startLog (c : LoggingSettings) (environment : Option String) (taken : Bool) :
    Except LogFault LogStart :=
  let level := c.level.getD defaultLevel
  if (environment.map isLogFilter).getD false || isLogFilter level then
    .ok ⟨!taken, if c.dir.isSome then 1 else 0⟩
  else .error (.badLevel level)

end Settings
end Arbor

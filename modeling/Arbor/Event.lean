/-
# Events

What `introspection/backend`, `introspection/session`, `introspection/registry`, `config/io` and
`config/lib` report.

What a session reports about its work: a level, a message, and named details.
-/

namespace Arbor

/-- How much an event matters. -/
inductive Level
  | debug
  | info
  | warn
  | error
deriving DecidableEq

/-- Something that happened. -/
structure Event where
  level : Level
  message : String
  details : List (String × String)
deriving DecidableEq

end Arbor

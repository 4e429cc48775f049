/-
# Texts in diagnostics

How the messages of `core/node`, `query/compiler` and `introspection/proxy` show texts.

A text in a diagnostic stands in double quotes, a character in single quotes.  The quote itself and
the backslash are escaped, `\0`, `\t`, `\r` and `\n` by name, and every character that does not show
by its number: `\u{200b}`.
-/

import Arbor.Text.Number
import Arbor.Text.Unprintable

namespace Arbor
namespace Text

/-- One character of a diagnostic between quotes of the kind `quote`. -/
def shownChar (quote c : Char) : List Char :=
  if c = '\x00' then ['\\', '0']
  else if c = '\t' then ['\\', 't']
  else if c = '\r' then ['\\', 'r']
  else if c = '\n' then ['\\', 'n']
  else if c = '\\' ∨ c = quote then ['\\', c]
  else if ' ' ≤ c ∧ c ≤ '~' then [c]
  else if isUnprintable c then "\\u\x7b".toList ++ (hex c.toNat).toList ++ ['\x7d']
  else [c]

/-- A text in double quotes. -/
def shown (s : String) : String :=
  String.ofList ('"' :: s.toList.flatMap (shownChar '"') ++ ['"'])

/-- A character in single quotes. -/
def shownQuoted (c : Char) : String :=
  String.ofList ('\'' :: shownChar '\'' c ++ ['\''])

/-- A list in brackets, items apart by a comma and a blank. -/
def shownList (items : List String) : String :=
  "[" ++ ", ".intercalate items ++ "]"

/-- A record: its name, and in braces its fields with their values. -/
def shownRecord (name : String) (fields : List (String × String)) : String :=
  name ++ " \x7b " ++ ", ".intercalate (fields.map fun f => f.1 ++ ": " ++ f.2) ++ " \x7d"

end Text
end Arbor

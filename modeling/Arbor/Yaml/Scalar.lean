/-
# Scalars in YAML

Part of `Yaml.layer`, a layer to run with.

A scalar without quotes may stand for nothing, a flag or a number.

| stands for | texts |
| --- | --- |
| nothing | empty, `~`, `null`, `Null`, `NULL` |
| a flag | `true`, `True`, `TRUE`, `false`, `False`, `FALSE` |
| a number | decimal digits without a leading zero, or `0x`, `0o`, `0b` and digits; before it `+` |

A text is written plainly where that reads as a text and nothing else, with single quotes where it
could be taken for something else, as a block where it has several lines, and with double quotes
where some character has to be escaped.
-/

import Arbor.Text.Number

namespace Arbor
namespace Yaml

/-! ## Reading -/

/-- A text that stands for nothing. -/
def isNull (s : String) : Bool := ["", "~", "null", "Null", "NULL"].contains s

/-- The flag that a text stands for. -/
def flag? (s : String) : Option Bool :=
  if ["true", "True", "TRUE"].contains s then some true
  else if ["false", "False", "FALSE"].contains s then some false
  else none

/-- The value of a digit in bases up to sixteen. -/
def digit? (base : Nat) (c : Char) : Option Nat :=
  (Text.hexValue? c.toNat).filter (· < base)

/-- The number that a run of digits denotes, at least one digit. -/
def digits? (base : Nat) (s : List Char) : Option Nat :=
  if s.isEmpty then none
  else (s.mapM (digit? base)).map fun digits => digits.foldl (fun n d => n * base + d) 0

/-- Decimal digits of which the first of several is a zero. -/
def hasLeadingZero : List Char → Bool
  | '0' :: c :: rest => (c :: rest).all Char.isDigit
  | _ => false

/-- The number that a text without a sign denotes. -/
def unsigned? : List Char → Option Nat
  | '0' :: 'x' :: rest => digits? 16 rest
  | '0' :: 'o' :: rest => digits? 8 rest
  | '0' :: 'b' :: rest => digits? 2 rest
  | s => if hasLeadingZero s then none else digits? 10 s

/-- The number that a text stands for. -/
def number? (s : String) : Option Nat :=
  match s.toList with
  | '+' :: rest => unsigned? rest
  | rest => unsigned? rest

/-! ## What a text could be taken for -/

/-- The part of a decimal after its point: digits, and an exponent. -/
def isExponent : List Char → Bool
  | [] => true
  | c :: rest =>
    if c = 'e' ∨ c = 'E' then
      match rest with
      | '+' :: digits | '-' :: digits => !digits.isEmpty && digits.all Char.isDigit
      | digits => !digits.isEmpty && digits.all Char.isDigit
    else false

/-- A decimal without a sign: digits with or without a point, and an exponent. -/
def isDecimal (s : List Char) : Bool :=
  let whole := s.takeWhile Char.isDigit
  match s.dropWhile Char.isDigit with
  | '.' :: rest =>
    !(whole.isEmpty && (rest.takeWhile Char.isDigit).isEmpty) &&
      isExponent (rest.dropWhile Char.isDigit)
  | rest => !whole.isEmpty && isExponent rest

/-- A number of any kind, with or without a sign. -/
def isNumeric (s : String) : Bool :=
  let isInfinite (t : List Char) := [".inf", ".Inf", ".INF"].contains (String.ofList t)
  match s.toList with
  | '+' :: rest | '-' :: rest =>
    (unsigned? rest).isSome || hasLeadingZero rest || isDecimal rest || isInfinite rest
  | rest =>
    (unsigned? rest).isSome || isDecimal rest || isInfinite rest ||
      [".nan", ".NaN", ".NAN"].contains s

/-- Words that some reader takes for a flag or for nothing, in letters of either case. -/
def isLoaded (s : String) : Bool :=
  ["", "~", "null", "true", "false", "y", "yes", "n", "no", "on", "off"].contains s.toLower

/-- A text that could be taken for something else. -/
def isAmbiguous (s : String) : Bool :=
  isLoaded s || isNumeric s || (s.toList.head?.map Char.isDigit).getD false

/-! ## Writing -/

/-- How a scalar is written. -/
inductive Style
  | plain
  | single
  | double
  | block
deriving DecidableEq

/-- A character that can be written as it is: a line break, or one that shows and has no more than
four hexadecimal digits. -/
def isShown (c : Char) : Bool :=
  c == '\n' || (' ' ≤ c && c ≤ '~') ||
    (0xA0 ≤ c.toNat && c.toNat ≤ 0xFFFD && c.toNat != 0xFEFF && c.toNat != 0x2028 &&
      c.toNat != 0x2029)

/-- A blank, or the end of the text. -/
def isGap : List Char → Bool
  | [] => true
  | c :: _ => c == ' ' || c == '\t' || c == '\n'

/-- Whether a colon or a comment stands inside a line. -/
def hasIndicator : List Char → Bool
  | [] => false
  | ':' :: rest => isGap rest || hasIndicator rest
  | ' ' :: '#' :: _ => true
  | _ :: rest => hasIndicator rest

/-- Whether a line begins like something that is no plain scalar. -/
def startsWithIndicator : List Char → Bool
  | [] => true
  | '-' :: '-' :: '-' :: _ | '.' :: '.' :: '.' :: _ => true
  | c :: rest =>
    "#,[]\x7b\x7d&*!|>'\"%@".toList.contains c || c.toNat == 0x60 ||
      ((c == '-' || c == '?' || c == ':') && isGap rest)

/-- A line that can stand without quotes. -/
def isPlain (s : List Char) : Bool :=
  s.head? != some ' ' && s.getLast? != some ' ' && !startsWithIndicator s && !hasIndicator s

/-- Whether a line ends in a blank. -/
def hasTrailingBlank : List Char → Bool
  | [] => false
  | ' ' :: rest => isGap rest && rest.head? != some ' ' || hasTrailingBlank rest
  | _ :: rest => hasTrailingBlank rest

/-- How a text is written. -/
def styleOf (s : String) : Style :=
  let chars := s.toList
  if !chars.all isShown then .double
  else if chars.contains '\n' then if hasTrailingBlank chars then .double else .block
  else if isAmbiguous s then .single
  else if isPlain chars then .plain
  else .single

/-- A character between double quotes. -/
def escaped (c : Char) : List Char :=
  let code := c.toNat
  let number (width : Nat) : List Char :=
    (Text.padZeros width (String.ofList (Nat.toDigits 16 code))).toUpper.toList
  if c = '"' ∨ c = '\\' then ['\\', c]
  else if c = '\n' then ['\\', 'n']
  else if isShown c then [c]
  else if code = 0 then ['\\', '0']
  else if code = 7 then ['\\', 'a']
  else if code = 8 then ['\\', 'b']
  else if code = 9 then ['\\', 't']
  else if code = 11 then ['\\', 'v']
  else if code = 12 then ['\\', 'f']
  else if code = 13 then ['\\', 'r']
  else if code = 27 then ['\\', 'e']
  else if code = 0x85 then ['\\', 'N']
  else if code = 0x2028 then ['\\', 'L']
  else if code = 0x2029 then ['\\', 'P']
  else if code < 0x100 then '\\' :: 'x' :: number 2
  else if code < 0x10000 then '\\' :: 'u' :: number 4
  else '\\' :: 'U' :: number 8

/-- The lines of a text: the parts between line breaks. -/
def lines : List Char → List (List Char)
  | [] => [[]]
  | c :: rest =>
    if c = '\n' then [] :: lines rest
    else
      match lines rest with
      | [] => [[c]]
      | l :: ls => (c :: l) :: ls

/-- What the head of a block says about the line breaks at its end: none is part of the text, the
first is, or all are. -/
def chomping (s : List Char) : List Char :=
  match s.reverse with
  | '\n' :: c :: _ => if c = '\n' then ['+'] else []
  | ['\n'] => ['+']
  | _ => ['-']

/-- A block of lines, each but the empty ones indented. -/
def writeBlock (indent : Nat) (s : List Char) : List Char :=
  let hint := match s with
    | ' ' :: _ | '\n' :: _ => ['2']
    | _ => []
  let body := (lines s).map fun l => if l.isEmpty then l else List.replicate indent ' ' ++ l
  '|' :: hint ++ chomping s ++ '\n' :: ['\n'].intercalate body

/-- A text as the value of a field; `indent` is where the lines of a block start. -/
def write (indent : Nat) (s : String) : String :=
  match styleOf s with
  | .plain => s
  | .single =>
    String.ofList ('\'' :: s.toList.flatMap (fun c => if c = '\'' then ['\'', '\''] else [c]) ++
      ['\''])
  | .double => String.ofList ('"' :: s.toList.flatMap escaped ++ ['"'])
  | .block => String.ofList (writeBlock indent s.toList)

end Yaml
end Arbor

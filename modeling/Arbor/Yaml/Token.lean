/-
# Tokens of YAML

Part of `Yaml.layer`, a layer to run with.

A document is cut into scalars and marks, each with the column at which it starts and whether it is
the first on its line; that is all that the structure of a document depends on.  Scalars come
without their quotes and with their lines folded: one line break becomes a blank, of several all but
the first remain.

The columns of the open block collections decide how far a scalar without quotes or a block scalar
reaches, so they are kept up to date along the way.

Anchors, aliases, tags, directives, folded blocks and more than one document are refused.
-/

import Arbor.Yaml.Scalar

namespace Arbor
namespace Yaml

/-- A scalar or a mark. -/
inductive TokenKind
  /-- Text without quotes or with them, on one line or on several. -/
  | scalar (plain oneLine : Bool) (text : String)
  | dash
  | colon
  | comma
  | openMap
  | closeMap
  | openSeq
  | closeSeq
deriving DecidableEq

/-- A scalar or a mark with its place. -/
structure Token where
  kind : TokenKind
  column : Nat
  /-- The first token of its line. -/
  first : Bool
deriving DecidableEq

/-! ## Characters and lines -/

def isBlank (c : Char) : Bool := c == ' ' || c == '\t'

/-- A character that may stand in a document. -/
def isAllowed (c : Char) : Bool :=
  let code := c.toNat
  code == 9 || code == 10 || code == 13 || (0x20 ≤ code && code ≤ 0x7E) || code == 0x85 ||
    (0xA0 ≤ code && code != 0xFEFF && code != 0xFFFE && code != 0xFFFF)

/-- Every line break as a line feed. -/
def unifyBreaks : List Char → List Char
  | '\r' :: '\n' :: rest => '\n' :: unifyBreaks rest
  | '\r' :: rest => '\n' :: unifyBreaks rest
  | c :: rest => c :: unifyBreaks rest
  | [] => []

/-- The column after a text that starts at a column. -/
def advance (column : Nat) : List Char → Nat
  | [] => column
  | c :: rest => advance (if c = '\n' then 0 else column + 1) rest

def trimLeft (s : List Char) : List Char := s.dropWhile isBlank

def trimRight (s : List Char) : List Char := (s.reverse.dropWhile isBlank).reverse

/-- What stands for so many line breaks. -/
def foldedBreaks (count : Nat) : List Char :=
  if count = 1 then [' '] else List.replicate (count - 1) '\n'

/-- Lines after the first, trimmed, after a number of line breaks. -/
def foldRest (breaks : Nat) : List (List Char) → List Char
  | [] => []
  | [last] => foldedBreaks breaks ++ last
  | l :: rest => if l.isEmpty then foldRest (breaks + 1) rest
    else foldedBreaks breaks ++ l ++ foldRest 1 rest

/-- Lines within quotes as one text. -/
def foldLines : List (List Char) → List Char
  | [] => []
  | [only] => only
  | l :: rest =>
    let last := rest.getLastD []
    trimRight l ++
      foldRest 1 (rest.dropLast.map (fun m => trimLeft (trimRight m)) ++ [trimLeft last])

/-! ## Quoted scalars -/

/-- The text up to the closing single quote, quotes within it written once, and what follows. -/
def spanSingle : List Char → Option (List Char × List Char)
  | '\'' :: '\'' :: rest => (spanSingle rest).map fun r => ('\'' :: r.1, r.2)
  | '\'' :: rest => some ([], rest)
  | c :: rest => (spanSingle rest).map fun r => (c :: r.1, r.2)
  | [] => none

/-- The text up to the closing double quote, escapes as they are, and what follows. -/
def spanDouble : List Char → Option (List Char × List Char)
  | '\\' :: c :: rest => (spanDouble rest).map fun r => ('\\' :: c :: r.1, r.2)
  | '"' :: rest => some ([], rest)
  | c :: rest => (spanDouble rest).map fun r => (c :: r.1, r.2)
  | [] => none

/-- Takes out the line breaks that have a backslash before them, and the blanks after them.
`joining` says that such a line break has just been taken out. -/
def joinEscaped (joining : Bool) : List Char → List Char
  | [] => []
  | '\\' :: '\n' :: rest => joinEscaped true rest
  | '\\' :: c :: rest => '\\' :: c :: joinEscaped false rest
  | c :: rest =>
    if joining && isBlank c then joinEscaped true rest else c :: joinEscaped false rest

/-- The character that a letter after a backslash stands for. -/
def escape? (c : Char) : Option Char :=
  [('0', 0), ('a', 7), ('b', 8), ('t', 9), ('\t', 9), ('n', 10), ('v', 11), ('f', 12), ('r', 13),
    ('e', 27), (' ', 32), ('"', 34), ('/', 47), ('\\', 92), ('N', 0x85), ('_', 0xA0),
    ('L', 0x2028), ('P', 0x2029)].lookup c |>.map Char.ofNat

/-- The character with a number of so many hexadecimal digits at the start of a text. -/
def numbered? (width : Nat) (s : List Char) : Option Char := do
  let digits := s.take width
  let code ← if digits.length = width then digits? 16 digits else none
  if code.isValidChar then some (Char.ofNat code) else none

/-- A text with its escapes replaced.  The fuel is its length. -/
def unescape : Nat → List Char → Option (List Char)
  | _, [] => some []
  | 0, _ => none
  | n + 1, '\\' :: c :: rest =>
    let counted (width : Nat) : Option (List Char) := do
      return (← numbered? width rest) :: (← unescape n (rest.drop width))
    if c = 'x' then counted 2
    else if c = 'u' then counted 4
    else if c = 'U' then counted 8
    else do return (← escape? c) :: (← unescape n rest)
  | n + 1, c :: rest => (unescape n rest).map (c :: ·)

/-! ## Scalars without quotes -/

/-- Whether a scalar without quotes ends before a text. -/
def endsPlain (flow : Bool) (afterBlank : Bool) : List Char → Bool
  | [] => true
  | c :: rest =>
    c == '\n' || (c == '#' && afterBlank) ||
      (c == ':' && (isGap rest || (flow && (",[]\x7b\x7d".toList.contains (rest.headD ' '))))) ||
      (flow && ",[]\x7b\x7d".toList.contains c)

/-- The part of a scalar without quotes that stands on one line, and what follows. -/
def spanPlain (flow : Bool) (afterBlank : Bool) : List Char → List Char × List Char
  | [] => ([], [])
  | c :: rest =>
    if endsPlain flow afterBlank (c :: rest) then ([], c :: rest)
    else
      let r := spanPlain flow (isBlank c) rest
      (c :: r.1, r.2)

/-- Whether a document marker stands at the start of a line. -/
def isMarker (s : List Char) : Bool :=
  (s.take 3 == ['-', '-', '-'] || s.take 3 == ['.', '.', '.']) && isGap (s.drop 3)

/-- The next line with something on it: the number of line breaks before it, the column at which it
starts, and the text from there. -/
def nextLine (breaks column : Nat) : List Char → Option (Nat × Nat × List Char)
  | [] => none
  | c :: rest =>
    if c = '\n' then nextLine (breaks + 1) 0 rest
    else if isBlank c then nextLine breaks (column + 1) rest
    else some (breaks, column, c :: rest)

/-- Whether a tab stands left of a column in the blanks before the next line that is not blank. -/
def hasEarlyTab (indent column : Nat) : List Char → Bool
  | [] => false
  | c :: rest =>
    if c = '\n' then hasEarlyTab indent 0 rest
    else if isBlank c then (c == '\t' && column < indent) || hasEarlyTab indent (column + 1) rest
    else false

/-- The lines of a scalar without quotes after the first, each with the line breaks before it, and
what follows, from its first character that shows.  They belong to the scalar while they are
indented by at least `indent`, and only blanks may indent them so far.  The fuel is the length of
the text. -/
def plainLines (flow : Bool) (indent : Nat) :
    Nat → List Char → Option (List (Nat × List Char) × List Char)
  | n + 1, '\n' :: rest =>
    if hasEarlyTab indent 0 rest then none
    else
      match nextLine 1 0 rest with
      | none => some ([], [])
      | some (breaks, column, line) =>
        if (!flow && column < indent) || line.head? == some '#' || (column == 0 && isMarker line)
          || endsPlain flow true line then
          some ([], line)
        else do
          let l := spanPlain flow true line
          let more ← plainLines flow indent n l.2
          return ((breaks, trimRight l.1) :: more.1, more.2)
  | _, rest => some ([], rest)

/-! ## Blocks -/

/-- What the head of a block says. -/
structure BlockHead where
  /-- How far the lines are indented, where the head says so. -/
  indent : Option Nat
  /-- `+` to keep the line breaks at the end, `-` to drop them. -/
  chomp : Option Char

/-- The head of a block, up to its line break. -/
def readHead : BlockHead → List Char → Option (BlockHead × List Char)
  | h, [] => some (h, [])
  | h, c :: rest =>
    if c = '\n' then some (h, rest)
    else if (c = '+' ∨ c = '-') ∧ h.chomp.isNone then readHead { h with chomp := some c } rest
    else if '1' ≤ c ∧ c ≤ '9' ∧ h.indent.isNone then
      readHead { h with indent := some (c.toNat - 48) } rest
    else if isBlank c then
      let tail := trimLeft rest
      match tail with
      | [] => some (h, [])
      | '\n' :: after => some (h, after)
      | '#' :: _ => some (h, (tail.dropWhile (· != '\n')).drop 1)
      | _ => none
    else none

/-- The widest indentation of the blank lines at the start and the first line that is none. -/
def detectIndent (widest : Nat) : List (List Char) → Nat
  | [] => widest
  | l :: rest =>
    let width := (l.takeWhile (· == ' ')).length
    if (l.drop width).isEmpty then detectIndent (max widest width) rest else max widest width

/-- The lines of a block, indentation removed. -/
def blockLines (indent : Nat) : List (List Char) → List (List Char)
  | [] => []
  | l :: rest =>
    let width := (l.takeWhile (· == ' ')).length
    if (l.drop width).isEmpty ∧ width ≤ indent then [] :: blockLines indent rest
    else if indent ≤ width then l.drop indent :: blockLines indent rest
    else []

/-- The text of a block with a given head, within a collection at a given column, and what follows
it, which begins at the start of a line. -/
def readBlock (parent : Option Nat) (h : BlockHead) (s : List Char) : List Char × List Char :=
  let all := lines s
  let indent := match h.indent with
    | some n => parent.getD 0 + n
    | none => max (detectIndent 0 all) ((parent.map (· + 1)).getD 0)
  -- The part after the last line break is a line only if it is not empty.
  let whole := if all.getLast? == some [] then all.dropLast else all
  let taken := blockLines indent whole
  let ended := taken.length < all.length
  let body := (taken.reverse.dropWhile List.isEmpty).reverse
  let blankLines := taken.length - body.length
  let text := ['\n'].intercalate body
  let text := match h.chomp with
    | some '-' => text
    | some _ =>
      if body.isEmpty then List.replicate blankLines '\n'
      else text ++ List.replicate (blankLines + if ended then 1 else 0) '\n'
    | none => if body.isEmpty ∨ (!ended ∧ blankLines = 0) then text else text ++ ['\n']
  (text, ['\n'].intercalate (all.drop taken.length))

/-! ## Cutting -/

/-- Where the cutting of a document stands. -/
structure Cut where
  rest : List Char
  column : Nat
  /-- No token has been found on the line yet. -/
  first : Bool
  /-- How many flow collections are open. -/
  depth : Nat
  /-- The columns of the open block collections, the innermost first. -/
  blocks : List Nat
  /-- The column of the last scalar. -/
  keyColumn : Nat
  /-- A marker has opened the document, or a token has. -/
  begun : Bool
  /-- A marker has closed the document. -/
  ended : Bool

namespace Cut

/-- Goes on after a text that has been dealt with. -/
def skip (c : Cut) (rest : List Char) : Cut :=
  let consumed := c.rest.take (c.rest.length - rest.length)
  let column := advance c.column consumed
  { c with rest := rest, column := column }

/-- A token, and what is left after it. -/
def token (c : Cut) (kind : TokenKind) (rest : List Char) : Token × Cut :=
  (⟨kind, c.column, c.first⟩, { c.skip rest with first := false, begun := true })

/-- Closes the block collections that a line at the present column no longer belongs to. -/
def close (c : Cut) : Cut :=
  if c.first ∧ c.depth = 0 then { c with blocks := c.blocks.dropWhile (c.column < ·) } else c

/-- Opens a block collection at a column. -/
def openBlock (c : Cut) (column : Nat) : Cut :=
  if c.depth = 0 ∧ c.blocks.all (· < column) then { c with blocks := column :: c.blocks } else c

/-- A scalar in quotes. -/
def quoted (c : Cut) (text : List Char) (rest : List Char) : Token × Cut :=
  let consumed := c.rest.take (c.rest.length - rest.length)
  let r := c.token (.scalar false (!consumed.contains '\n') (String.ofList text)) rest
  (r.1, { r.2 with keyColumn := c.column })

/-- A scalar without quotes. -/
def plain (c : Cut) : Option (Token × Cut) := do
  let flow := 0 < c.depth
  let firstLine := spanPlain flow false c.rest
  let indent := (c.blocks.head?.map (· + 1)).getD 0
  let more ← plainLines flow indent firstLine.2.length firstLine.2
  let text := trimRight firstLine.1 ++ more.1.flatMap fun l => foldedBreaks l.1 ++ l.2
  let consumed := c.rest.take (c.rest.length - more.2.length)
  let gap := consumed.reverse.takeWhile fun d => isBlank d || d == '\n'
  let r := c.token (.scalar true more.1.isEmpty (String.ofList text)) more.2
  return (r.1, { r.2 with first := gap.contains '\n', keyColumn := c.column })

/-- A character that begins no scalar without quotes, wherever it stands. -/
def isBarred (c : Char) : Bool := "&*!|>%@\t".toList.contains c || c.toNat == 0x60

/-- The token at the present place, which is neither a blank nor the start of a comment. -/
def next? (c : Cut) : Option (Token × Cut) :=
  let c := c.close
  match c.rest with
  | [] => none
  | d :: rest =>
    let opened (kind : TokenKind) : Token × Cut :=
      let r := c.token kind rest
      (r.1, { r.2 with depth := c.depth + 1 })
    let closed (kind : TokenKind) : Token × Cut :=
      let r := c.token kind rest
      (r.1, { r.2 with depth := c.depth - 1 })
    if c.ended then none
    else if d = '\x7b' then some (opened .openMap)
    else if d = '[' then some (opened .openSeq)
    else if d = '\x7d' then some (closed .closeMap)
    else if d = ']' then some (closed .closeSeq)
    else if d = ',' then some (c.token .comma rest)
    else if d = '-' ∧ isGap rest then
      let r := c.token .dash rest
      if (rest.takeWhile isBlank).contains '\t' then none else some (r.1, r.2.openBlock c.column)
    else if d = ':' ∧ (isGap rest ∨ 0 < c.depth) then
      let r := c.token .colon rest
      some (r.1, r.2.openBlock c.keyColumn)
    else if d = '?' ∧ (isGap rest ∨ 0 < c.depth) then none
    else if d = '\'' then do
      let (text, after) ← spanSingle rest
      return c.quoted (foldLines (lines text)) after
    else if d = '"' then do
      let (text, after) ← spanDouble rest
      let text := foldLines (lines (joinEscaped false text))
      return c.quoted (← unescape text.length text) after
    else if d = '|' ∧ c.depth = 0 then do
      let (h, body) ← readHead ⟨none, none⟩ rest
      let (text, after) := readBlock c.blocks.head? h body
      let r := c.token (.scalar false false (String.ofList text)) after
      return (r.1, { r.2 with first := true, column := 0 })
    else if isBarred d then none
    else c.plain

/-- All tokens from the present place on.  The fuel is more than the length of the text. -/
def tokens : Nat → Cut → Option (List Token)
  | 0, _ => none
  | n + 1, c =>
    match c.rest with
    | [] => some []
    | d :: rest =>
      if d = '\n' then tokens n { c.skip rest with first := true }
      else if d = ' ' ∨ (d = '\t' ∧ (!c.first ∨ 0 < c.depth)) then tokens n (c.skip rest)
      else if d = '#' then tokens n (c.skip (rest.dropWhile (· != '\n')))
      else if c.first ∧ c.column = 0 ∧ isMarker c.rest then
        if d = '.' then tokens n { c.skip (rest.drop 2) with ended := true }
        else if c.begun then none
        else tokens n { c.skip (rest.drop 2) with begun := true }
      else
        match c.next? with
        | none => none
        | some (t, c) => (tokens n c).map (t :: ·)

end Cut

/-- The tokens of a document. -/
def tokens? (s : String) : Option (List Token) :=
  let chars := unifyBreaks s.toList
  let chars := match chars with
    | c :: rest => if c.toNat = 0xFEFF then rest else c :: rest
    | [] => []
  if chars.all isAllowed then
    Cut.tokens (chars.length + 1) ⟨chars, 0, true, 0, [], 0, false, false⟩
  else none

end Yaml
end Arbor

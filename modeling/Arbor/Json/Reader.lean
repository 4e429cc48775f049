/-
# JSON text, read

The text of the values of `RawState` in `core/traits`.

The grammar of JSON, nothing added.  A number without point and exponent is an integer if it fits
64 bits, with or without a sign, and a double otherwise, as is `-0`; every other number is a double,
read from as many leading digits as fit 64 bits.  Values nest at most 127 deep.
-/

import Arbor.Json.Basic
import Arbor.Text.Number

namespace Arbor
namespace Json

/-- The text after blanks. -/
def skipBlanks : List Char → List Char
  | c :: rest =>
    if c = ' ' ∨ c = '\t' ∨ c = '\n' ∨ c = '\r' then skipBlanks rest else c :: rest
  | [] => []

/-- The digits at the start of a text, and the rest. -/
def takeDigits : List Char → List Char × List Char
  | c :: rest =>
    if c.isDigit then
      let (digits, rest) := takeDigits rest
      (c :: digits, rest)
    else ([], c :: rest)
  | [] => ([], [])

/-- The leading digits that fit 64 bits, appended to `significand`, and how many digits follow. -/
def accumulate (significand : Nat) : List Char → Nat × Nat
  | [] => (significand, 0)
  | c :: rest =>
    let next := significand * 10 + (c.toNat - 48)
    if next < 0x10000000000000000 then accumulate next rest else (significand, rest.length + 1)

/-- An optional fraction: its digits, at least one. -/
def readFraction : List Char → Option (Option (List Char) × List Char)
  | '.' :: rest =>
    match takeDigits rest with
    | ([], _) => none
    | (digits, rest) => some (some digits, rest)
  | rest => some (none, rest)

/-- An optional exponent. -/
def readExponent : List Char → Option (Option Int × List Char)
  | c :: rest =>
    if c = 'e' ∨ c = 'E' then
      let (negative, rest) := match rest with
        | '-' :: rest => (true, rest)
        | '+' :: rest => (false, rest)
        | rest => (false, rest)
      match takeDigits rest with
      | ([], _) => none
      | (digits, rest) =>
        let n : Int := Text.natOfDigits digits
        some (some (if negative then -n else n), rest)
    else some (none, c :: rest)
  | [] => some (none, [])

/-- An integer numeral: an integer if it fits 64 bits, otherwise a double, as is `-0`. -/
def ofIntegerDigits? (negative : Bool) (digits : List Char) : Option Json :=
  let n := Text.natOfDigits digits
  if negative then
    if n = 0 then some (.double (Binary64.ofMagnitude true 0))
    else if n ≤ 0x8000000000000000 then some (.int (-(n : Int)))
    else double? digits
  else if n < 0x10000000000000000 then some (.int n)
  else double? digits
where
  /-- The double that the leading digits give. -/
  double? (digits : List Char) : Option Json :=
    let (significand, dropped) := accumulate 0 digits
    (Binary64.ofDecimal? significand dropped).map fun d =>
      .double (if negative then d.neg else d)

/-- A numeral with a fraction or an exponent. -/
def ofDecimalDigits? (negative : Bool) (whole fraction : List Char) (exponent : Int) :
    Option Json :=
  let (significand, dropped) := accumulate 0 whole
  let (significand, unread) := accumulate significand fraction
  let places : Int := (dropped : Int) - ((fraction.length : Int) - unread) + exponent
  (Binary64.ofDecimal? significand places).map fun d =>
    .double (if negative then d.neg else d)

/-- A number. -/
def readNumber (text : List Char) : Option (Json × List Char) := do
  let (negative, text) := match text with
    | '-' :: rest => (true, rest)
    | text => (false, text)
  let (whole, text) := takeDigits text
  match whole with
  | [] => none
  | '0' :: _ :: _ => none
  | _ =>
    let (fraction, text) ← readFraction text
    let (exponent, text) ← readExponent text
    let value ← match fraction, exponent with
      | none, none => ofIntegerDigits? negative whole
      | _, _ => ofDecimalDigits? negative whole (fraction.getD []) (exponent.getD 0)
    return (value, text)

/-- Four hexadecimal digits. -/
def readHex4 : List Char → Option (Nat × List Char)
  | a :: b :: c :: d :: rest => do
    let a ← Text.hexValue? a.toNat
    let b ← Text.hexValue? b.toNat
    let c ← Text.hexValue? c.toNat
    let d ← Text.hexValue? d.toNat
    return (((a * 16 + b) * 16 + c) * 16 + d, rest)
  | _ => none

/-- The character after `\u`: four digits, or the two halves of a surrogate pair. -/
def readUnicode (text : List Char) : Option (Char × List Char) := do
  let (high, text) ← readHex4 text
  if 0xD800 ≤ high ∧ high < 0xDC00 then
    match text with
    | '\\' :: 'u' :: text =>
      let (low, text) ← readHex4 text
      if 0xDC00 ≤ low ∧ low < 0xE000 then
        return (Char.ofNat (0x10000 + (high - 0xD800) * 0x400 + (low - 0xDC00)), text)
      else none
    | _ => none
  else if 0xDC00 ≤ high ∧ high < 0xE000 then none
  else return (Char.ofNat high, text)

/-- The rest of a string after its opening quote; `fuel` bounds its length. -/
def readString : Nat → List Char → Option (List Char × List Char)
  | 0, _ => none
  | fuel + 1, text =>
    match text with
    | [] => none
    | '"' :: rest => some ([], rest)
    | '\\' :: 'u' :: rest => do
      let (c, rest) ← readUnicode rest
      let (cs, rest) ← readString fuel rest
      return (c :: cs, rest)
    | '\\' :: e :: rest => do
      let c ← match e with
        | '"' => some '"'
        | '\\' => some '\\'
        | '/' => some '/'
        | 'b' => some '\x08'
        | 'f' => some '\x0c'
        | 'n' => some '\n'
        | 'r' => some '\r'
        | 't' => some '\t'
        | _ => none
      let (cs, rest) ← readString fuel rest
      return (c :: cs, rest)
    | c :: rest => do
      if c < ' ' ∨ c = '\\' then none
      else
        let (cs, rest) ← readString fuel rest
        return (c :: cs, rest)

/-- The text after a given word. -/
def expect (word text : List Char) : Option (List Char) :=
  if word.isPrefixOf text then some (text.drop word.length) else none

mutual

/-- A value.  `depth` is how deep lists and objects may still nest; `fuel` bounds the calls. -/
def readValue : Nat → Nat → List Char → Option (Json × List Char)
  | 0, _, _ => none
  | fuel + 1, depth, text =>
    match skipBlanks text with
    | 'n' :: rest => (expect "ull".toList rest).map (Json.null, ·)
    | 't' :: rest => (expect "rue".toList rest).map (Json.bool true, ·)
    | 'f' :: rest => (expect "alse".toList rest).map (Json.bool false, ·)
    | '"' :: rest => do
      let (s, rest) ← readString (rest.length + 1) rest
      return (.str (String.ofList s), rest)
    | '[' :: rest =>
      match depth with
      | 0 => none
      | depth + 1 =>
        match skipBlanks rest with
        | ']' :: rest => some (.arr [], rest)
        | rest => do
          let (items, rest) ← readItems fuel depth rest
          return (.arr items, rest)
    | '\x7b' :: rest =>
      match depth with
      | 0 => none
      | depth + 1 =>
        match skipBlanks rest with
        | '\x7d' :: rest => some (.obj [], rest)
        | rest => do
          let (entries, rest) ← readEntries fuel depth rest
          return (object entries, rest)
    | rest => readNumber rest

/-- One item or more, up to the closing bracket. -/
def readItems : Nat → Nat → List Char → Option (List Json × List Char)
  | 0, _, _ => none
  | fuel + 1, depth, text => do
    let (item, rest) ← readValue fuel depth text
    match skipBlanks rest with
    | ',' :: rest => do
      let (items, rest) ← readItems fuel depth rest
      return (item :: items, rest)
    | ']' :: rest => return ([item], rest)
    | _ => none

/-- One entry or more, up to the closing brace. -/
def readEntries : Nat → Nat → List Char → Option (List (String × Json) × List Char)
  | 0, _, _ => none
  | fuel + 1, depth, text =>
    match skipBlanks text with
    | '"' :: rest => do
      let (key, rest) ← readString (rest.length + 1) rest
      match skipBlanks rest with
      | ':' :: rest => do
        let (value, rest) ← readValue fuel depth rest
        let entry := (String.ofList key, value)
        match skipBlanks rest with
        | ',' :: rest => do
          let (entries, rest) ← readEntries fuel depth rest
          return (entry :: entries, rest)
        | '\x7d' :: rest => return ([entry], rest)
        | _ => none
      | _ => none
    | _ => none

end

/-- The value that a whole text denotes. -/
def read? (text : String) : Option Json := do
  let text := text.toList
  let (value, rest) ← readValue (2 * text.length + 2) 127 text
  if (skipBlanks rest).isEmpty then return value else none

end Json
end Arbor

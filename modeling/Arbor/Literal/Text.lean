/-
# The text of literals

`core/literal`: `write` is `encode_literal`, `quote` is `encode_string_literal`, `read` is
`decode_literal`, `readInt` is `decode_int_literal`, and `readText` with `unescape` is
`decode_string_literal`, of which `Text.hexValue?` is `hex_digit`.

| literal | text |
| --- | --- |
| boolean | `True`, `False` |
| integer | decimal digits, a minus sign before a negative one; `+` and leading zeros are read |
| text | its UTF-8 bytes in double quotes |

Between the quotes the writer sends printable ASCII as it is, a quote and a backslash after a
backslash, newline, return and tab as `\n`, `\r`, `\t`, and every other byte as `\x` and two lower
case hexadecimal digits.  The reader also takes `\'`, `\0`, hexadecimal digits of either case, and
bytes that need no escape, and refuses at the first byte it cannot take; that the bytes spell a text
is looked at last.
-/

import Arbor.Failure
import Arbor.Literal.Basic
import Arbor.Text.Number
import Arbor.Text.Utf8

namespace Arbor
namespace Literal

/-- Why a literal has no text. -/
inductive WriteFault
  | outsideInt32 (i : Int64)
  | noText (kind : Kind)

/-- The wording of a fault. -/
def WriteFault.message : WriteFault → String
  | .outsideInt32 i =>
    s!"integer {i.toInt} has no wire representation outside the signed 32-bit range"
  | .noText kind => s!"{kind.name} values have no wire representation"

/-- The digit of a value below sixteen, as a byte. -/
def hexByte (n : Nat) : UInt8 := UInt8.ofNat (if n < 10 then 48 + n else 87 + n)

/-- A byte of a text between the quotes. -/
def escapeByte (b : UInt8) : List UInt8 :=
  if b = 0x22 then [0x5C, 0x22]
  else if b = 0x5C then [0x5C, 0x5C]
  else if b = 0x0A then [0x5C, 0x6E]
  else if b = 0x0D then [0x5C, 0x72]
  else if b = 0x09 then [0x5C, 0x74]
  else if 0x20 ≤ b ∧ b ≤ 0x7E then [b]
  else [0x5C, 0x78, hexByte (b.toNat / 16), hexByte (b.toNat % 16)]

/-- The character of a byte below 128. -/
def asciiChar (b : UInt8) : Char := Char.ofNat b.toNat

/-- A text in quotes. -/
def quote (s : String) : String :=
  let inner := (Text.Utf8.encode s.toList).flatMap escapeByte
  String.ofList ('"' :: inner.map asciiChar ++ ['"'])

/-- The text of a literal. -/
def write : Literal → Except WriteFault String
  | .bool b => .ok (if b then "True" else "False")
  | .int i =>
    if Json.inInt32 i.toInt then .ok (toString i.toInt) else .error (.outsideInt32 i)
  | .text s => .ok (quote s)
  | .value v => .error (.noText v.kind)

/-- Why a text is not a literal. -/
inductive ReadFault
  | notInteger (text : String)
  | outOfRange (text : String)
  | outsideInt32 (i : Int)
  | unterminated (text : String)
  | danglingBackslash
  | shortHex
  | unknownEscape (byte : UInt8)
  | strayQuote
  | notUtf8 (fault : Text.Utf8.Fault)

/-- The wording of a fault.  An unknown escape is named by the character whose code its byte is. -/
def ReadFault.message : ReadFault → String
  | .notInteger s => s!"'{s}' is not an integer literal"
  | .outOfRange s => s!"integer literal '{s}' is out of range"
  | .outsideInt32 i => s!"integer literal {i} outside the signed 32-bit range"
  | .unterminated s => s!"unterminated string literal {s}"
  | .danglingBackslash => "dangling backslash in string literal"
  | .shortHex => "\\x escape needs two hexadecimal digits"
  | .unknownEscape byte =>
    "unknown escape sequence \\" ++ String.singleton (Char.ofNat byte.toNat)
  | .strayQuote => "unescaped quote inside string literal"
  | .notUtf8 fault => s!"string literal is not valid UTF-8: {fault.message}"

/-- The failure of a reader that is given the text alone: there is no attribute to name. -/
def ReadFault.failure (fault : ReadFault) : Failure := .valueDecode none fault.message

/-- A sign, if there is one, and what follows it. -/
def splitSign : List Char → Bool × List Char
  | '+' :: rest => (false, rest)
  | '-' :: rest => (true, rest)
  | rest => (false, rest)

/-- The integer a text stands for: an optional sign and digits, within 32 bits. -/
def readInt (text : String) : Except ReadFault Int64 :=
  let (negative, digits) := splitSign text.toList
  if digits.isEmpty || !digits.all Char.isDigit then .error (.notInteger text)
  else
    let n : Int := Text.natOfDigits digits
    let i := if negative then -n else n
    if i < -0x8000000000000000 ∨ 0x8000000000000000 ≤ i then .error (.outOfRange text)
    else if Json.inInt32 i then .ok (Int64.ofInt i)
    else .error (.outsideInt32 i)

/-- The byte that a letter after a backslash stands for. -/
def simpleEscape? (b : UInt8) : Option UInt8 :=
  if b = 0x22 ∨ b = 0x27 ∨ b = 0x5C then some b
  else if b = 0x6E then some 0x0A
  else if b = 0x72 then some 0x0D
  else if b = 0x74 then some 0x09
  else if b = 0x30 then some 0
  else none

/-- The byte that two hexadecimal digits stand for. -/
def hexPair? (high low : UInt8) : Option UInt8 :=
  match Text.hexValue? high.toNat, Text.hexValue? low.toNat with
  | some h, some l => some (UInt8.ofNat (h * 16 + l))
  | _, _ => none

/-- The bytes that stand between the quotes of a literal. -/
def unescape : List UInt8 → Except ReadFault (List UInt8)
  | [] => .ok []
  | b :: rest =>
    if b = 0x5C then
      match rest with
      | [] => .error .danglingBackslash
      | e :: rest =>
        if e = 0x78 then
          match rest with
          | high :: low :: rest =>
            match hexPair? high low with
            | some byte => (unescape rest).map (byte :: ·)
            | none => .error .shortHex
          | _ => .error .shortHex
        else
          match simpleEscape? e with
          | some byte => (unescape rest).map (byte :: ·)
          | none => .error (.unknownEscape e)
    else if b = 0x22 then .error .strayQuote
    else (unescape rest).map (b :: ·)

/-- What stands between the first and the last character of a text, if both are quotes. -/
def unquoted? : List Char → Option (List Char)
  | '"' :: rest => if rest.getLast? = some '"' then some rest.dropLast else none
  | _ => none

/-- The text that a quoted text stands for. -/
def readText (text : String) : Except ReadFault String :=
  match unquoted? text.toList with
  | none => .error (.unterminated text)
  | some inner =>
    match unescape (Text.Utf8.encode inner) with
    | .error fault => .error fault
    | .ok bytes =>
      match Text.Utf8.decode bytes with
      | .ok chars => .ok (String.ofList chars)
      | .error fault => .error (.notUtf8 fault)

/-- The literal that a text stands for. -/
def read (text : String) : Except ReadFault Literal :=
  if text = "True" then .ok (.bool true)
  else if text = "False" then .ok (.bool false)
  else if text.toList.head? = some '"' then (readText text).map .text
  else (readInt text).map .int

end Literal
end Arbor

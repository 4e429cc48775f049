/-
# UTF-8

The bytes of texts, on which `encode_string_literal` and `decode_string_literal` in `core/literal`
work.

| lead byte | bytes owed | bounds of the next byte |
| --- | ---: | --- |
| `00`–`7F` | 0 | |
| `C2`–`DF` | 1 | `80`–`BF` |
| `E0` | 2 | `A0`–`BF` |
| `E1`–`EC`, `EE`, `EF` | 2 | `80`–`BF` |
| `ED` | 2 | `80`–`9F` |
| `F0` | 3 | `90`–`BF` |
| `F1`–`F3` | 3 | `80`–`BF` |
| `F4` | 3 | `80`–`8F` |

Every other byte starts no character.  A byte after the first of those owed lies in `80`–`BF`.
`decode` refuses at the first byte that rules the text out and says where the character it spoils
begins.
-/

namespace Arbor
namespace Text
namespace Utf8

/-- The bytes of a text. -/
def encode (cs : List Char) : List UInt8 := cs.flatMap String.utf8EncodeChar

/-- Why bytes are not text: the character starting at `index` is spoiled after `length` good
bytes, or, without a `length`, the bytes end inside it. -/
structure Fault where
  index : Nat
  length : Option Nat
deriving DecidableEq

/-- The wording of a fault. -/
def Fault.message (f : Fault) : String :=
  match f.length with
  | some n => s!"invalid utf-8 sequence of {n} bytes from index {f.index}"
  | none => s!"incomplete utf-8 byte sequence from index {f.index}"

/-- A character of which `seen` bytes are read: `owed` more follow, the next of them between `low`
and `high`; `value` holds the bits so far. -/
structure Pending where
  owed : Nat
  low : UInt8
  high : UInt8
  value : Nat
  seen : Nat
deriving DecidableEq

/-- What a lead byte announces, none when no character starts with it. -/
def lead? (b : UInt8) : Option Pending :=
  if b ≤ 0x7F then some ⟨0, 0x80, 0xBF, b.toNat, 1⟩
  else if 0xC2 ≤ b ∧ b ≤ 0xDF then some ⟨1, 0x80, 0xBF, b.toNat - 0xC0, 1⟩
  else if b = 0xE0 then some ⟨2, 0xA0, 0xBF, 0, 1⟩
  else if b = 0xED then some ⟨2, 0x80, 0x9F, 0xD, 1⟩
  else if 0xE1 ≤ b ∧ b ≤ 0xEF then some ⟨2, 0x80, 0xBF, b.toNat - 0xE0, 1⟩
  else if b = 0xF0 then some ⟨3, 0x90, 0xBF, 0, 1⟩
  else if 0xF1 ≤ b ∧ b ≤ 0xF3 then some ⟨3, 0x80, 0xBF, b.toNat - 0xF0, 1⟩
  else if b = 0xF4 then some ⟨3, 0x80, 0x8F, 4, 1⟩
  else none

/-- The pending character after one more byte of it. -/
def Pending.push (p : Pending) (b : UInt8) : Pending :=
  ⟨p.owed - 1, 0x80, 0xBF, p.value * 64 + (b.toNat - 0x80), p.seen + 1⟩

/-- Reads on from index `index`, where the pending character, if there is one, begins. -/
def decodeFrom (index : Nat) : Option Pending → List UInt8 → Except Fault (List Char)
  | none, [] => .ok []
  | some _, [] => .error ⟨index, none⟩
  | none, b :: rest =>
    match lead? b with
    | none => .error ⟨index, some 1⟩
    | some p =>
      if p.owed = 0 then (decodeFrom (index + 1) none rest).map (Char.ofNat p.value :: ·)
      else decodeFrom index (some p) rest
  | some p, b :: rest =>
    if p.low ≤ b ∧ b ≤ p.high then
      if p.owed = 1 then
        (decodeFrom (index + p.seen + 1) none rest).map (Char.ofNat (p.push b).value :: ·)
      else decodeFrom index (some (p.push b)) rest
    else .error ⟨index, some p.seen⟩

/-- The text that the bytes spell. -/
def decode (bytes : List UInt8) : Except Fault (List Char) := decodeFrom 0 none bytes

end Utf8
end Text
end Arbor

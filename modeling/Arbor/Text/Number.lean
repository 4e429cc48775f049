/-
# Digits

The digits of `core/literal` (`hex_digit`), and those of the messages of `core/value`.

Decimal and hexadecimal digits: numbers padded to a width, and the number a run of digits denotes.
-/

namespace Arbor
namespace Text

/-- A natural number in base sixteen, lower case, no leading zeros. -/
def hex (n : Nat) : String := String.ofList (Nat.toDigits 16 n)

/-- A text with zeros before it up to a width. -/
def padZeros (width : Nat) (digits : String) : String :=
  String.ofList (List.replicate (width - digits.length) '0') ++ digits

/-- An integer in at least `width` places, zeros after the sign, which counts as a place. -/
def padInt (width : Nat) (i : Int) : String :=
  if i < 0 then "-" ++ padZeros (width - 1) (toString i.natAbs)
  else padZeros width (toString i.natAbs)

/-- The number that decimal digits denote. -/
def natOfDigits (digits : List Char) : Nat :=
  digits.foldl (fun n c => n * 10 + (c.toNat - 48)) 0

/-- The value of the code of a hexadecimal digit of either case. -/
def hexValue? (code : Nat) : Option Nat :=
  if 48 ≤ code ∧ code ≤ 57 then some (code - 48)
  else if 97 ≤ code ∧ code ≤ 102 then some (code - 87)
  else if 65 ≤ code ∧ code ≤ 70 then some (code - 55)
  else none

end Text
end Arbor

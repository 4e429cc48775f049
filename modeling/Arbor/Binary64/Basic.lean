/-
# Doubles as bit patterns

`Float` in `core/value`, and the doubles of JSON and of messages.

A binary64 number is its 64 bits: sign, 11 exponent bits, 52 fraction bits.  Two doubles are equal
when their bits are, so a NaN equals itself and the zeros differ; `rank` lays all bit patterns on
one line, from the negative NaNs up to the positive ones.

| exponent field `e` | fraction `f` | magnitude |
| --- | --- | --- |
| 0 | any | `f · 2^(-1074)` |
| 1 … 2046 | any | `(2^52 + f) · 2^(e - 1075)` |
| 2047 | 0 | infinity |
| 2047 | other | NaN |

Arithmetic is exact on mantissa and power, then rounded once by `ofRatio`: to nearest, ties to even.
-/

namespace Arbor

/-- A binary64 number. -/
structure Binary64 where
  bits : UInt64
deriving DecidableEq

namespace Binary64

/-- The bits without the sign. -/
def magnitude (x : Binary64) : Nat := x.bits.toNat % 0x8000000000000000

def isNegative (x : Binary64) : Bool := 0x8000000000000000 ≤ x.bits.toNat

def exponentField (x : Binary64) : Nat := x.magnitude / 0x10000000000000

def fraction (x : Binary64) : Nat := x.magnitude % 0x10000000000000

/-- Neither an infinity nor a NaN. -/
def isFinite (x : Binary64) : Bool := x.exponentField != 2047

def isInfinite (x : Binary64) : Bool := x.exponentField == 2047 && x.fraction == 0

def isZero (x : Binary64) : Bool := x.magnitude == 0

/-- The place of a bit pattern on the line of all doubles: negative NaNs, negative infinity,
negative numbers, `-0`, `0`, positive numbers, infinity, NaNs. -/
def rank (x : Binary64) : Int :=
  if x.isNegative then -(x.magnitude : Int) - 1 else x.magnitude

instance : Ord Binary64 where
  compare x y := compare x.rank y.rank

/-- A finite magnitude is `mantissa · 2^power`. -/
def mantissa (x : Binary64) : Nat :=
  if x.exponentField = 0 then x.fraction else 0x10000000000000 + x.fraction

def power (x : Binary64) : Int :=
  if x.exponentField = 0 then -1074 else (x.exponentField : Int) - 1075

/-- A sign on a magnitude below `2^63`. -/
def ofMagnitude (negative : Bool) (magnitude : Nat) : Binary64 :=
  ⟨UInt64.ofNat (if negative then 0x8000000000000000 + magnitude else magnitude)⟩

def neg (x : Binary64) : Binary64 := ofMagnitude (!x.isNegative) x.magnitude

def zero : Binary64 := ⟨0⟩

/-- `num / den` to the nearest natural number, ties to even. -/
def roundDiv (num den : Nat) : Nat :=
  let q := num / den
  let r := num % den
  if 2 * r < den then q
  else if den < 2 * r then q + 1
  else q + q % 2

/-- `num · 2^shift / den` to the nearest natural number. -/
def roundShifted (num den : Nat) (shift : Int) : Nat :=
  if 0 ≤ shift then roundDiv (num <<< shift.toNat) den
  else roundDiv num (den <<< (-shift).toNat)

/-- The largest power of two that is at most `num / den`, for positive `num` and `den`. -/
def floorLog2 (num den : Nat) : Int :=
  let e := (num.log2 : Int) - den.log2
  let below := if 0 ≤ e then num < den <<< e.toNat else num <<< (-e).toNat < den
  if below then e - 1 else e

/-- The double nearest to `num / den`, ties to even, infinity past the largest one.

With `q` the power of the last place, the rounded mantissa `m` is at most `2^53`, and
`(q + 1074) · 2^52 + m` is the magnitude of `m · 2^q` whether it is subnormal, normal or has just
reached the next power of two. -/
def ofRatio (negative : Bool) (num den : Nat) : Binary64 :=
  if num = 0 then ofMagnitude negative 0
  else
    let q := max (floorLog2 num den - 52) (-1074)
    let m := roundShifted num den (-q)
    ofMagnitude negative (min ((q + 1074).toNat <<< 52 + m) (2047 <<< 52))

/-- `num · 2^power / den`, rounded. -/
def ofScaled (negative : Bool) (num den : Nat) (power : Int) : Binary64 :=
  if 0 ≤ power then ofRatio negative (num <<< power.toNat) den
  else ofRatio negative num (den <<< (-power).toNat)

/-- The double nearest to an integer. -/
def ofInt (i : Int) : Binary64 := ofRatio (i < 0) i.natAbs 1

/-- The product of two finite doubles. -/
def mul (x y : Binary64) : Binary64 :=
  ofScaled (x.isNegative != y.isNegative) (x.mantissa * y.mantissa) 1 (x.power + y.power)

/-- The quotient of two finite doubles, the second one not zero. -/
def div (x y : Binary64) : Binary64 :=
  ofScaled (x.isNegative != y.isNegative) x.mantissa y.mantissa (x.power - y.power)

/-- The sum of two doubles that are finite and not negative. -/
def addNonneg (x y : Binary64) : Binary64 :=
  let q := min x.power y.power
  ofScaled false
    (x.mantissa <<< (x.power - q).toNat + y.mantissa <<< (y.power - q).toNat) 1 q

/-- `10^n`, rounded. -/
def tenTo (n : Nat) : Binary64 := ofRatio false (Nat.pow 10 n) 1

/-- `x / 10^n` in steps of at most 308 powers of ten, each rounded. -/
def shrink (x : Binary64) (n : Nat) : Binary64 :=
  if n ≤ 308 then x.div (tenTo n)
  else if x.isZero then x
  else shrink (x.div (tenTo 308)) (n - 308)
termination_by n

/-- The reading of a decimal number whose leading digits are `significand`: it is rounded to a
double first and scaled by a power of ten after, so a long numeral may differ from its nearest
double in the last place.  None when the number is too large. -/
def ofDecimal? (significand : Nat) (exponent : Int) : Option Binary64 :=
  let x := ofInt significand
  if exponent < 0 then some (x.shrink (-exponent).toNat)
  else if x.isZero then some x
  else if 308 < exponent then none
  else
    let y := x.mul (tenTo exponent.toNat)
    if y.isInfinite then none else some y

end Binary64
end Arbor

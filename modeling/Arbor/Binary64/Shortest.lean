/-
# The shortest decimal that reads back

How doubles are set in JSON and in the messages of `core/value` and `core/node`.

Among the decimals that round to a given finite double, `shortest` picks one of the fewest digits,
and of those the nearest.  It walks decimal grids from coarse to fine; on each grid only the two
neighbours of the value have to be tried, since if any point of a grid rounds to the value, so does
one of its neighbours.

`Layout` says how digits are set: which exponents are written out positionally, and how the
exponent is written otherwise.
-/

import Arbor.Binary64.Basic
import Arbor.Text.Number

namespace Arbor
namespace Binary64

/-- The decimals that round to a value, scaled to one grid: in units of `1 / unit` grid steps they
reach from `low` to `high` around `middle`, ends included when `closed`. -/
structure Interval where
  low : Nat
  middle : Nat
  high : Nat
  unit : Nat
  closed : Bool

/-- The decimals that round to a finite value other than zero, in units of a quarter of its last
place; below a power of two the gap is half as wide. -/
def interval (x : Binary64) (exponent : Int) : Interval :=
  let m := x.mantissa
  let q := x.power - 2
  let gap := if m = 0x10000000000000 ∧ -1074 < x.power then 1 else 2
  let times := Nat.pow 10 (-exponent).toNat <<< q.toNat
  ⟨(4 * m - gap) * times, 4 * m * times, (4 * m + 2) * times,
    Nat.pow 10 exponent.toNat <<< (-q).toNat, m % 2 = 0⟩

/-- Whether the grid point `n` lies in the interval. -/
def Interval.holds (i : Interval) (n : Nat) : Bool :=
  if i.closed then i.low ≤ n * i.unit && n * i.unit ≤ i.high
  else i.low < n * i.unit && n * i.unit < i.high

/-- The neighbour of the value on the grid that lies in the interval, the nearer of two, the even
one of two as near. -/
def Interval.pick? (i : Interval) : Option Nat :=
  let n := i.middle / i.unit
  match i.holds n, i.holds (n + 1) with
  | false, false => none
  | true, false => some n
  | false, true => some (n + 1)
  | true, true => some (roundDiv i.middle i.unit)

/-- Tries the grids `10^exponent`, `10^(exponent - 1)`, …, at most `fuel` of them. -/
def search (x : Binary64) : Nat → Int → Nat × Int
  | 0, exponent => (0, exponent)
  | fuel + 1, exponent =>
    match (x.interval exponent).pick? with
    | some n => (n, exponent)
    | none => search x fuel (exponent - 1)

/-- Digits `n` and exponent `e` with `n · 10^e` the shortest decimal for a finite value other than
zero.  A number below `2^(k+1)` is below `10^(k · 0.30103 + 2)`, where the search starts; seventeen
digits always suffice. -/
def shortest (x : Binary64) : Nat × Int :=
  x.search 25 (((x.mantissa.log2 : Int) + x.power) * 30103 / 100000 + 2)

/-- How a double is written.  Numbers whose leading digit counts a power of ten from `lowest` to
`highest` are positional, others have an exponent of at least `exponentDigits` digits, with a plus
sign on request. -/
structure Layout where
  lowest : Int
  highest : Int
  plusSign : Bool
  exponentDigits : Nat

/-- `digits` with the point after the first `whole` of them, zeros filled in, and at least one digit
after the point. -/
def positional (digits : List Char) (whole : Int) : List Char :=
  if whole ≤ 0 then '0' :: '.' :: List.replicate (-whole).toNat '0' ++ digits
  else
    let n := whole.toNat
    let front := digits.take n ++ List.replicate (n - digits.length) '0'
    let back := digits.drop n
    front ++ '.' :: (if back.isEmpty then ['0'] else back)

/-- One digit, the other digits after a point, and the exponent. -/
def scientific (layout : Layout) (digits : List Char) (leading : Int) : List Char :=
  let mantissa := match digits with
    | [] => []
    | [d] => [d]
    | d :: rest => d :: '.' :: rest
  let sign := if leading < 0 then ['-'] else if layout.plusSign then ['+'] else []
  let digits := (Text.padZeros layout.exponentDigits (toString leading.natAbs)).toList
  mantissa ++ 'e' :: sign ++ digits

/-- The text of a double. -/
def write (layout : Layout) (x : Binary64) : String :=
  let sign := if x.isNegative then "-" else ""
  if x.isFinite then
    if x.isZero then sign ++ "0.0"
    else
      let (n, e) := x.shortest
      let digits := Nat.toDigits 10 n
      let leading := e + digits.length - 1
      let body :=
        if layout.lowest ≤ leading ∧ leading ≤ layout.highest then positional digits (leading + 1)
        else scientific layout digits leading
      sign ++ String.ofList body
  else if x.isInfinite then sign ++ "inf"
  else "NaN"

/-- `x`, finite and not negative, with one digit after the point, a half going to the even digit. -/
def tenths (x : Binary64) : String :=
  let n :=
    if 0 ≤ x.power then (x.mantissa * 10) <<< x.power.toNat
    else roundDiv (x.mantissa * 10) (1 <<< (-x.power).toNat)
  s!"{n / 10}.{n % 10}"

end Binary64
end Arbor

import LintGate.Json.Binary64

/-!
# JSON — the shortest decimal of a double

A double is written with the fewest significant digits that still single it out.  The numbers that
round to it form an interval around it, halfway to its two neighbours, with its ends included
exactly if its last bit is zero.  For 1, 2, … 17 digits the two decimals of that many digits next
to the double are tried; the first count at which one lies in the interval is taken, and of two that
do the nearer one, or the even one if the double is halfway between them.

How the digits are then laid out is the format's decision, and stands in one record (`Layout`).
-/

namespace LintGate.Json

/-- A decimal number: `digits · 10^exponent`. -/
structure Decimal where
  /-- The significant digits as one number. -/
  digits : Nat
  /-- The power of ten the digits are scaled by. -/
  exponent : Int
  deriving DecidableEq, Repr

namespace Decimal

/-- The decimal digits of a number. -/
def chars (n : Nat) : List Char :=
  Nat.toDigits 10 n

/-- The number of digits of `n` after its first. -/
def log10 (n : Nat) : Nat :=
  (chars n).length - 1

/-- `d` without the zeros at the end of its digits, at most `fuel` of them. -/
def stripZeros : Nat → Decimal → Decimal
  | 0, d        => d
  | fuel + 1, d =>
    if d.digits % 10 = 0 then stripZeros fuel ⟨d.digits / 10, d.exponent + 1⟩ else d

end Decimal

namespace Shortest

/-- The interval of the numbers that round to a double, in units of 2⁻¹⁰⁷⁵. -/
structure Interval where
  /-- The double itself. -/
  center : Nat
  /-- The least number of the interval. -/
  low : Nat
  /-- The greatest number of the interval. -/
  high : Nat
  /-- The two ends belong to it. -/
  closed : Bool

/-- The interval of the double of `u` units.  Below a power of two the neighbours are half as far
away as above it. -/
def Interval.ofUnits (u : Nat) : Interval :=
  let s := Binary64.spacing u
  let below := if u = s <<< 52 ∧ 1 < s then s / 2 else s
  { center := 2 * u, low := 2 * u - below, high := 2 * u + s, closed := (u / s) % 2 = 0 }

/-- `n / d` lies in the interval. -/
def Interval.holds (i : Interval) (n d : Nat) : Bool :=
  if i.closed then decide (i.low * d ≤ n ∧ n ≤ i.high * d)
  else decide (i.low * d < n ∧ n < i.high * d)

/-- The power of ten of the first digit of `u` units, for `u ≠ 0`. -/
def leading (u : Nat) : Int :=
  (Decimal.log10 ((u * Nat.pow 10 342) >>> 1074) : Int) - 342

/-- The decimal in the interval on the grid of multiples of `10^p`, if one of the two next to its
center lies in it. -/
def onGrid (i : Interval) (p : Int) : Option Decimal :=
  -- `10^p = up / down`, and all is measured in units of 2⁻¹⁰⁷⁵
  let up := Nat.pow 10 p.toNat <<< 1075
  let down := Nat.pow 10 (-p).toNat
  let c := i.center * down / up
  let lowHit := i.holds (c * up) down
  let highHit := i.holds ((c + 1) * up) down
  let twice := 2 * (i.center * down)
  let half := (2 * c + 1) * up
  let preferLow := twice < half || (twice == half && c % 2 == 0)
  if lowHit && (preferLow || !highHit) then some ⟨c, p⟩
  else if highHit then some ⟨c + 1, p⟩
  else none

/-- The first decimal found with `digits` or more significant digits, trying `fuel` counts. -/
def search (i : Interval) (lead : Int) : (fuel digits : Nat) → Option Decimal
  | 0, _             => none
  | fuel + 1, digits =>
    match onGrid i (lead - (digits : Int) + 1) with
    | some d => some d
    | none   => search i lead fuel (digits + 1)

/-- The shortest decimal of the double of `u` units, for `u ≠ 0`.  Seventeen digits tell all doubles
apart. -/
def ofUnits (u : Nat) : Decimal :=
  (((search (Interval.ofUnits u) (leading u) 17 1).getD ⟨0, 0⟩).stripZeros 17)

end Shortest

/-! ### Layout -/

/-- How the digits of a number are laid out. -/
structure Layout where
  /-- The least power of ten of the first digit that is written without an exponent. -/
  least : Int
  /-- The greatest one. -/
  greatest : Int
  /-- What a whole number ends with. -/
  whole : List Char
  /-- The sign of an exponent that is not negative. -/
  plus : List Char

/-- Numbers of size 10⁻⁵ up to below 10¹⁶ are written out, a whole one with `.0`; an exponent has
its sign, plus or minus. -/
def Layout.standard : Layout :=
  { least := -5, greatest := 15, whole := ['.', '0'], plus := ['+'] }

/-- The digits `ds` of a number whose first digit has the power of ten `e`. -/
def Layout.write (l : Layout) (ds : List Char) (e : Int) : List Char :=
  if l.least ≤ e ∧ e ≤ l.greatest then
    if e < 0 then ['0', '.'] ++ List.replicate (-e - 1).toNat '0' ++ ds
    else
      let n := e.toNat + 1
      if ds.length ≤ n then ds ++ List.replicate (n - ds.length) '0' ++ l.whole
      else ds.take n ++ ['.'] ++ ds.drop n
  else
    let point := if ds.length ≤ 1 then [] else ['.']
    let sign := if e < 0 then ['-'] else l.plus
    ds.take 1 ++ point ++ ds.drop 1 ++ ['e'] ++ sign ++ Decimal.chars e.natAbs

/-- The text of a double. -/
def Binary64.chars (d : Binary64) : List Char :=
  let sign := if d.negative then ['-'] else []
  if d.units = 0 then sign ++ ['0', '.', '0']
  else
    let s := Shortest.ofUnits d.units
    let ds := Decimal.chars s.digits
    sign ++ Layout.standard.write ds (s.exponent + ds.length - 1)

end LintGate.Json

import LintGate.Json.Binary64
import LintGate.Json.Value

/-!
# JSON — the value of a numeral

A numeral is read in two steps: first its parts as they are written (`Numeral`), then its value
(`Numeral.number?`).  A numeral of digits alone that fits a 64-bit word is a whole number; a minus
needs a magnitude from 1 to 2⁶³.  All others are doubles.

The double is not always the one nearest to the decimal.  As many digits as fit a 64-bit word make
up the significand, the digits after them count only as places, and the significand is then scaled
by powers of ten with a rounding at each step.
-/

namespace LintGate.Json

/-- The parts of a numeral. -/
structure Numeral where
  /-- A minus stands in front. -/
  negative : Bool
  /-- The digits before the point. -/
  whole : List Char
  /-- The digits after the point; there are none exactly if there is no point. -/
  fraction : List Char
  /-- The sign (a minus or not) and the digits of the exponent. -/
  exponent : Option (Bool × List Char)
  deriving DecidableEq, Repr

/-- The value of a decimal digit. -/
def digitValue (c : Char) : Nat :=
  c.toNat - '0'.toNat

/-- A decimal digit. -/
def isDigit (c : Char) : Bool :=
  '0' ≤ c && c ≤ '9'

namespace Numeral

/-- Digits read into `acc` as long as it stays below `bound`, and the digits left over. -/
def absorb (bound acc : Nat) : List Char → Nat × List Char
  | []      => (acc, [])
  | c :: cs =>
    let next := acc * 10 + digitValue c
    if next < bound then absorb bound next cs else (acc, c :: cs)

/-- The significands are the numbers below this one, which is 2⁶⁴. -/
def wordBound : Nat := 0x10000000000000000

/-- The magnitudes of whole numbers with a minus are the numbers up to this one, which is 2⁶³. -/
def minusBound : Nat := 0x8000000000000000

/-- The exponents, without their sign, are the numbers below this one, which is 2³¹. -/
def exponentBound : Nat := 0x80000000

/-- The double of `f` units scaled by `10^x`; `none` if it is not finite.  Powers beyond 10³⁰⁸ are
divided by in steps, and zero is not scaled at all. -/
def scale (f : Nat) (x : Int) : Option Nat :=
  if 0 ≤ x ∧ x ≤ 308 then
    let p := Binary64.mul f (Binary64.power x.toNat)
    if p < Binary64.infinity then some p else none
  else if x < 0 ∧ -308 ≤ x then some (Binary64.div f (Binary64.power (-x).toNat))
  else if f = 0 then some 0
  else if 0 ≤ x then none
  else scale (Binary64.div f (Binary64.power 308)) (x + 308)
termination_by (-x).toNat
decreasing_by omega

/-- `x` held within the range of a 32-bit exponent. -/
def clamp (x : Int) : Int :=
  if x < -exponentBound then -exponentBound
  else if x < exponentBound then x
  else exponentBound - 1

/-- The value of a numeral, or the number of its exponent's digits behind the one at which it is
known to be out of range. -/
def number? (n : Numeral) : Except Nat Number :=
  let (w, placesLeft) := absorb wordBound 0 n.whole
  let double (units : Nat) : Number := .double ⟨n.negative, units⟩
  if placesLeft.isEmpty && n.fraction.isEmpty && n.exponent.isNone then
    if !n.negative then .ok (.int w)
    else if w = 0 ∨ minusBound < w then .ok (double (Binary64.nearest w 1))
    else .ok (.int (-w))
  else
    let (sig, unused) := absorb wordBound w n.fraction
    let point : Int := (placesLeft.length : Int) - (n.fraction.length - unused.length : Nat)
    let scaled (x : Int) : Except Nat Number :=
      match scale (Binary64.nearest sig 1) x with
      | some u => .ok (double u)
      | none   => .error 0
    match n.exponent with
    | none            => scaled point
    | some (minus, ds) =>
      match absorb exponentBound 0 ds with
      | (e, [])       => scaled (clamp (if minus then point - e else point + e))
      | (_, _ :: more) =>
        if sig ≠ 0 && !minus then .error more.length else .ok (double 0)

end Numeral

end LintGate.Json

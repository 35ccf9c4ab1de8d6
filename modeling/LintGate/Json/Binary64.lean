/-!
# JSON — double precision numbers

A finite double is a sign and a whole number of units of 2⁻¹⁰⁷⁴, so all arithmetic on doubles is
exact arithmetic on natural numbers followed by one rounding.  `nearest n d` rounds the quotient
`n / d`: the result has at most 53 significant bits and is the nearest such number, a tie going to
the even one.  A magnitude of `infinity` units or more is beyond the finite doubles.
-/

namespace LintGate.Json

/-- A finite double: its sign, and its magnitude in units of 2⁻¹⁰⁷⁴. -/
structure Binary64 where
  /-- The sign is a minus. -/
  negative : Bool
  /-- The magnitude, in units of 2⁻¹⁰⁷⁴. -/
  units : Nat
  deriving DecidableEq, Repr

namespace Binary64

/-- The units of 1. -/
def one : Nat := 1 <<< 1074

/-- The units of 2¹⁰²⁴, the first magnitude that is not finite. -/
def infinity : Nat := 1 <<< 2098

/-- The whole number nearest to `n / d`; a tie goes to the even one. -/
def roundDiv (n d : Nat) : Nat :=
  let q := n / d
  if 2 * (n % d) < d then q
  else if d < 2 * (n % d) then q + 1
  else q + q % 2

/-- The distance between neighbours among the doubles of the magnitude of `q` units: one unit up
to 53 bits, and so much more that 53 bits are left. -/
def spacing (q : Nat) : Nat :=
  1 <<< (q.log2 - 52)

/-- The units of the double nearest to `n / d`. -/
def nearest (n d : Nat) : Nat :=
  let s := spacing (n * one / d)
  roundDiv (n * one) (d * s) * s

/-- The units of the double nearest to 10ᵉ. -/
def power (e : Nat) : Nat :=
  nearest (Nat.pow 10 e) 1

/-- The units of the rounded product. -/
def mul (a b : Nat) : Nat :=
  nearest (a * b) (one * one)

/-- The units of the rounded quotient. -/
def div (a b : Nat) : Nat :=
  nearest a b

/-- Equal as numbers: the two zeros are one. -/
def same (a b : Binary64) : Bool :=
  a.units == b.units && (a.negative == b.negative || a.units == 0)

end Binary64

end LintGate.Json

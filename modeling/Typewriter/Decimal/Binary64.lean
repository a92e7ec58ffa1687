/-!
# Rounding to binary64

A decimal literal is rounded to the nearest value of the binary64 grid before it is used, a tie to
the even neighbour.  Every finite binary64 magnitude is a whole number of units of `2 ^ -1074`, so
rounding is exact arithmetic on natural numbers: find the spacing of the grid around the value, and
divide with rounding.  The grid here has no upper end; a magnitude past the largest finite binary64
stays past it, which is all that a range check asks.
-/

namespace Typewriter

/-- The quotient of two numbers, rounded to the nearest whole number, a tie to the even neighbour. -/
def roundDiv (num den : Nat) : Nat :=
  let quotient := num / den
  let remainder := num % den
  if 2 * remainder < den then quotient
  else if den < 2 * remainder then quotient + 1
  else quotient + quotient % 2

namespace Binary64

/-- The number of smallest units in the magnitude one. -/
def one : Nat := Nat.pow 2 1074

/-- The distance in units between neighbouring magnitudes around `units`: 53 significant bits, and
never less than one unit. -/
def spacing (units : Nat) : Nat :=
  Nat.pow 2 (units.log2 - 52)

/-- The magnitude nearest to `num / den`, in units. -/
def nearest (num den : Nat) : Nat :=
  let step := spacing (num * one / den)
  roundDiv (num * one) (den * step) * step

/-- Exponents are cut off here.  A nonzero value with a larger one exceeds every finite magnitude
either way. -/
def maxExponent : Int := 400

/-- Exponents are cut off here for values of that many digits or fewer.  A value with a smaller one
rounds to zero either way. -/
def minExponent (digits : Nat) : Int := -(400 + (digits.log2 + 1 : Nat))

/-- The magnitude nearest to `digits * 10 ^ exponent`, in units. -/
def ofDecimal (digits : Nat) (exponent : Int) : Nat :=
  match max (minExponent digits) (min exponent maxExponent) with
  | .ofNat e => nearest (digits * Nat.pow 10 e) 1
  | .negSucc e => nearest digits (Nat.pow 10 (e + 1))

end Binary64

end Typewriter

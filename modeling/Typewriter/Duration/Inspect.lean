import Typewriter.Duration.Basic

/-!
# Durations for inspection

A duration is shown in the largest unit of which it has at least one, from seconds down to
nanoseconds, with the rest as a decimal fraction without trailing zeros.
-/

namespace Typewriter.Duration

/-- A number in decimal, with zeros in front up to a width. -/
def padded (width n : Nat) : List Char :=
  let digits := Nat.toDigits 10 n
  List.replicate (width - digits.length) '0' ++ digits

/-- A fraction of so many decimal places without trailing zeros, behind its point. -/
def fraction (places rest : Nat) : List Char :=
  match (padded places rest).reverse.dropWhile (· = '0') with
  | [] => []
  | digits => '.' :: digits.reverse

/-- A number over a power of ten in decimal, with so many places, and behind it a unit. -/
def inUnit (n places : Nat) (unit : String) : String :=
  let one := Nat.pow 10 places
  String.ofList (Nat.toDigits 10 (n / one) ++ fraction places (n % one)) ++ unit

/-- A duration with its unit. -/
def inspect (d : Duration) : String :=
  if nanosPerSecond ≤ d.nanos then inUnit d.nanos 9 "s"
  else if nanosPerMilli ≤ d.nanos then inUnit d.nanos 6 "ms"
  else if 1000 ≤ d.nanos then inUnit d.nanos 3 "µs"
  else inUnit d.nanos 0 "ns"

end Typewriter.Duration

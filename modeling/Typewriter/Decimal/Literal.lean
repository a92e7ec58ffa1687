/-!
# Decimal literals

A decimal literal is a sign, digits with at most one point, and an exponent; sign, exponent and one
side of the point may be missing.  The words for infinity and for "not a number" are literals too,
in any mixture of cases.  A finite literal keeps its exact value `± digits * 10 ^ exponent`.
-/

namespace Typewriter

/-- What a decimal literal stands for. -/
inductive Decimal where
  | infinite (negative : Bool)
  | nan
  | finite (negative : Bool) (digits : Nat) (exponent : Int)
deriving DecidableEq, Repr

namespace Decimal

/-- Why a text is no decimal literal. -/
inductive Fault where
  | empty
  | malformed
deriving DecidableEq, Repr

/-- The number that a run of digits denotes. -/
def digitsValue (cs : List Char) : Nat :=
  cs.foldl (fun value c => value * 10 + (c.toNat - '0'.toNat)) 0

/-- Take a sign off the front; without one the number is not negative. -/
def readSign : List Char → Bool × List Char
  | '+' :: cs => (false, cs)
  | '-' :: cs => (true, cs)
  | cs => (false, cs)

/-- A decimal exponent fills the rest of its literal: a sign and at least one digit. -/
def readExponent? (cs : List Char) : Option Int :=
  let (negative, digits) := readSign cs
  if digits.isEmpty || !digits.all Char.isDigit then none
  else if negative then some (-(digitsValue digits : Int))
  else some (digitsValue digits)

/-- The digits after the point, if there is a point, and what follows them. -/
def readFraction : List Char → List Char × List Char
  | '.' :: cs => (cs.takeWhile Char.isDigit, cs.dropWhile Char.isDigit)
  | cs => ([], cs)

/-- Read a literal made of digits: whole part, fraction and exponent, with a digit before or after
the point. -/
def readFinite? (negative : Bool) (cs : List Char) : Option Decimal :=
  let whole := cs.takeWhile Char.isDigit
  let (fraction, rest) := readFraction (cs.dropWhile Char.isDigit)
  if whole.isEmpty && fraction.isEmpty then none
  else
    let value := finite negative (digitsValue (whole ++ fraction))
    match rest with
    | [] => some (value (-fraction.length))
    | c :: exponent =>
        if c = 'e' ∨ c = 'E' then
          (readExponent? exponent).map fun e => value (e - fraction.length)
        else none

/-- Read a literal behind its sign. -/
def readUnsigned? (negative : Bool) (cs : List Char) : Option Decimal :=
  let word := String.ofList (cs.map Char.toLower)
  if word = "inf" ∨ word = "infinity" then some (infinite negative)
  else if word = "nan" then some nan
  else readFinite? negative cs

/-- Read a decimal literal. -/
def read (cs : List Char) : Except Fault Decimal :=
  if cs.isEmpty then .error .empty
  else
    let (negative, rest) := readSign cs
    match readUnsigned? negative rest with
    | some value => .ok value
    | none => .error .malformed

/-- The fault in words. -/
def Fault.message : Fault → String
  | .empty => "cannot parse float from empty string"
  | .malformed => "invalid float literal"

end Decimal

end Typewriter

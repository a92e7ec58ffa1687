/-!
# Numerals

Whole numbers are written in decimal digits, with at most one plus sign in front, and must fit into
64 bits.  Reading goes from left to right and stops at the first fault: a character that is no
digit, or a digit that takes the value past `UInt64.size`.
-/

namespace Typewriter.Numeral

/-- Why a text is no numeral of 64 bits. -/
inductive Fault where
  | empty
  | invalidDigit
  | tooLarge
deriving DecidableEq, Repr

/-- The value of a decimal digit. -/
def digit? (c : Char) : Option Nat :=
  if c.isDigit then some (c.toNat - '0'.toNat) else none

/-- Append digits to the value read so far. -/
def readDigits (value : UInt64) : List Char → Except Fault UInt64
  | [] => .ok value
  | c :: cs =>
      match digit? c with
      | none => .error .invalidDigit
      | some d =>
          if value.toNat * 10 + d < UInt64.size then
            readDigits (UInt64.ofNat (value.toNat * 10 + d)) cs
          else .error .tooLarge

/-- Read a numeral.  A sign without digits is an invalid digit, and so is a minus sign. -/
def read : List Char → Except Fault UInt64
  | [] => .error .empty
  | ['+'] => .error .invalidDigit
  | '+' :: cs => readDigits 0 cs
  | cs => readDigits 0 cs

/-- The fault in words. -/
def Fault.message : Fault → String
  | .empty => "cannot parse integer from empty string"
  | .invalidDigit => "invalid digit found in string"
  | .tooLarge => "number too large to fit in target type"

end Typewriter.Numeral

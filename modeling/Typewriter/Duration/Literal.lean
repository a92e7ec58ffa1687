import Typewriter.Decimal.Literal
import Typewriter.Decimal.Binary64
import Typewriter.Duration.Basic
import Typewriter.Numeral
import Typewriter.Text.Blank

/-!
# Written durations

Scripts write a duration as a number and a unit: a numeral and `ms`, or a decimal literal and `s`.
Blanks may stand around the number.  Seconds are rounded twice, to the nearest binary64 and from its
exact value to whole nanoseconds, both times with ties to even.
-/

namespace Typewriter.Duration

/-- Why seconds are no duration. -/
inductive RangeFault where
  | negative
  | tooLarge
deriving DecidableEq, Repr

/-- Why a text is no written duration. -/
inductive Fault where
  | millis (cause : Numeral.Fault)
  | seconds (cause : Decimal.Fault)
  | range (cause : RangeFault)
  | unit (text : String)
deriving DecidableEq, Repr

/-- The duration of so many seconds.  A value that rounds to zero is not negative, whatever its
sign, and what is not a number counts as too large. -/
def ofSeconds : Decimal → Except RangeFault Duration
  | .infinite true => .error .negative
  | .infinite false => .error .tooLarge
  | .nan => .error .tooLarge
  | .finite negative digits exponent =>
      let units := Binary64.ofDecimal digits exponent
      if negative ∧ units ≠ 0 then .error .negative
      else
        match ofNanos? (roundDiv (units * nanosPerSecond) Binary64.one) with
        | some d => .ok d
        | none => .error .tooLarge

/-- Read the number of a duration in milliseconds. -/
def readMillis (cs : List Char) : Except Fault Duration :=
  match Numeral.read (Text.trim cs) with
  | .ok m => .ok (ofMillis m)
  | .error cause => .error (.millis cause)

/-- Read the number of a duration in seconds. -/
def readSeconds (cs : List Char) : Except Fault Duration :=
  match Decimal.read (Text.trim cs) with
  | .error cause => .error (.seconds cause)
  | .ok value =>
      match ofSeconds value with
      | .ok d => .ok d
      | .error cause => .error (.range cause)

/-- Read a written duration. -/
def read (cs : List Char) : Except Fault Duration :=
  let text := Text.trim cs
  match ['m', 's'].isSuffixOf? text with
  | some number => readMillis number
  | none =>
      match ['s'].isSuffixOf? text with
      | some number => readSeconds number
      | none => .error (.unit (String.ofList text))

/-- The fault in words. -/
def RangeFault.message : RangeFault → String
  | .negative => "cannot convert float seconds to Duration: value is negative"
  | .tooLarge => "cannot convert float seconds to Duration: value is either too big or NaN"

/-- The fault in words, the outermost cause first. -/
def Fault.chain : Fault → List String
  | .millis cause => ["Invalid milliseconds value", cause.message]
  | .seconds cause => ["Invalid seconds value", cause.message]
  | .range cause => ["Seconds value out of range", cause.message]
  | .unit text => ["Duration must end with 's' or 'ms', got: " ++ text]

end Typewriter.Duration

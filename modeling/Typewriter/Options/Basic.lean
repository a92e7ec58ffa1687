import Typewriter.Setup

/-!
# Options

The options of the program decide which script is played, and how.
-/

namespace Typewriter

/-- The options of a run. -/
structure Options where
  /-- The path of the script. -/
  script : String
  /-- Milliseconds between characters. -/
  speed : UInt64 := 50
  delimiter : Option String := none
  /-- Rests after characters, in the order of the command line. -/
  rests : List (Char × Duration) := []
  marker : Option String := none
  /-- The largest random part of a delay, in milliseconds. -/
  jitter : UInt64 := 0
deriving DecidableEq

namespace Options

/-- The setup that the options ask for.  Alerts are heard, for they appear as banners. -/
def setup (options : Options) : Setup where
  tempo :=
    { interval := .ofMillis options.speed
      jitter := .ofMillis options.jitter
      rests := .ofList options.rests }
  delimiter := options.delimiter
  hearsAlerts := true
  marker := options.marker

end Options

end Typewriter

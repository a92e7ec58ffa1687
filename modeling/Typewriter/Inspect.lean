import Typewriter.Duration.Inspect
import Typewriter.Script.Basic
import Typewriter.Setup
import Typewriter.Text.Quote

/-!
# Inspection

Cues and setups are shown for inspection as nested terms: a name, and the parts between brackets.
What is a function inside is only told to be there.
-/

namespace Typewriter

/-- A name with named parts between braces. -/
def inspectFields (name : String) (fields : List (String × String)) : String :=
  let shown := fields.map fun field => field.1 ++ ": " ++ field.2
  name ++ " \x7b " ++ String.intercalate ", " shown ++ " \x7d"

/-- A value that may be missing. -/
def inspectOption {α : Type} (inspect : α → String) : Option α → String
  | some value => "Some(" ++ inspect value ++ ")"
  | none => "None"

/-- A truth value. -/
def inspectBool (b : Bool) : String :=
  if b then "true" else "false"

/-- A cue. -/
def Cue.inspect : Cue → String
  | .line text => "Text(" ++ Text.inspectString text ++ ")"
  | .pause length => "Pause(" ++ length.inspect ++ ")"
  | .effect _ => "Effect(..)"

/-- The rests of a tempo, between braces. -/
def Rests.inspect (rests : Rests) : String :=
  let shown := rests.toList.map fun entry => Text.inspectChar entry.1 ++ ": " ++ entry.2.inspect
  "DelayTable(\x7b" ++ String.intercalate ", " shown ++ "\x7d)"

/-- A setup. -/
def Setup.inspect (setup : Setup) : String :=
  inspectFields "Config"
    [("command_delimiter", inspectOption Text.inspectString setup.delimiter),
      ("command_resolver", inspectBool setup.customHandler.isSome),
      ("delay_table", setup.tempo.rests.inspect),
      ("type_speed", setup.tempo.interval.inspect),
      ("jitter", setup.tempo.jitter.inspect),
      ("on_complete", inspectBool setup.announcesEnd),
      ("on_alert", inspectBool setup.hearsAlerts),
      ("cursor", inspectOption Text.inspectString setup.marker)]

end Typewriter

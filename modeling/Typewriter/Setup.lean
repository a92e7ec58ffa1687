import Typewriter.Command.Book
import Typewriter.Tempo

/-!
# Setups

A setup holds all that is decided before a performance starts.
-/

namespace Typewriter

/-- The choices for a performance. -/
structure Setup where
  tempo : Tempo := {}
  /-- Behind this, lines call commands; without it every line may. -/
  delimiter : Option String := none
  /-- A handler in place of the usual command book. -/
  customHandler : Option Handler := none
  /-- Whether the end of the script is announced by an event.  Otherwise a closing text is shown. -/
  announcesEnd : Bool := false
  /-- Whether alerts are heard. -/
  hearsAlerts : Bool := false
  /-- A mark behind the text of a line that is being typed. -/
  marker : Option String := none
  /-- Draws for the random part of the tempo: the n-th belongs to the n-th typed character. -/
  noise : Nat → Nat := fun _ => 0

namespace Setup

/-- The book of a setup with some commands of its own. -/
def book (setup : Setup) (commands : List Command) : CommandBook :=
  ⟨setup.delimiter, commands, setup.hearsAlerts⟩

/-- The handler of a setup. -/
def handler (setup : Setup) : Handler :=
  match setup.customHandler with
  | some handler => handler
  | none => (setup.book []).handler

end Setup

end Typewriter

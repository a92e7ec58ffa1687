import Typewriter.Command.Handler

/-!
# Commands

A command has a name and acts on an argument.  It says how many cues it takes up, and may raise
alerts, which are heard only if someone listens.
-/

namespace Typewriter

/-- What a command did: the events, and the number of cues that it takes up. -/
structure Reaction where
  events : List Event
  consumed : Nat
deriving DecidableEq, Repr

/-- A named command.  `run audible argument` acts on an argument; `audible` tells whether alerts
are heard. -/
structure Command where
  name : String
  run : Bool → String → Reaction

/-- The events of an alert. -/
def raiseAlert (audible : Bool) (message : String) : List Event :=
  if audible then [.alert message] else []

/-- How many cues a command takes up. -/
inductive Slots where
  | fixed (count : Nat)
  /-- One for each character of the argument. -/
  | argumentLength
deriving DecidableEq, Repr

/-- The number of cues for an argument. -/
def Slots.count : Slots → String → Nat
  | .fixed count, _ => count
  | .argumentLength, argument => argument.length

namespace Command

/-- The command that shows its argument as an alert. -/
def alert : Command where
  name := "alert"
  run audible argument := ⟨raiseAlert audible argument, 1⟩

/-- The commands that are always known. -/
def builtins : List Command := [alert]

/-- A command that leaves an event, and raises an alert if it is given a lead for the message. -/
def announcing (name : String) (slots : Slots) (lead : Option String) : Command where
  name := name
  run audible argument :=
    let alerts :=
      match lead with
      | some lead => raiseAlert audible (lead ++ argument)
      | none => []
    ⟨.command name argument :: alerts, slots.count argument⟩

end Command

end Typewriter

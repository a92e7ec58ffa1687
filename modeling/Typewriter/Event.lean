/-!
# Events

What a performance does besides typing is a list of events, in the order in which they happen.
-/

namespace Typewriter

/-- Something that happens during a performance. -/
inductive Event where
  /-- An effect of the script took place. -/
  | effect (name : String)
  /-- A command ran. -/
  | command (name argument : String)
  /-- An alert was shown. -/
  | alert (message : String)
  /-- A detour looked at a line. -/
  | query (text : String) (position : Nat)
  /-- The script came to its end. -/
  | complete
deriving DecidableEq, Repr

namespace Event

/-- The message of an alert. -/
def alert? : Event → Option String
  | .alert message => some message
  | _ => none

/-- The message of the last alert among some events. -/
def lastAlert? (events : List Event) : Option String :=
  (events.filterMap alert?).getLast?

end Event

end Typewriter

import Typewriter.Event

/-!
# Handlers

Every line that a walk through a script reaches is first put to a handler.  The handler either
leaves the line alone, to be typed, or does something instead and says where the walk goes on.
-/

namespace Typewriter

/-- The largest position that a handler can name. -/
def maxPosition : Nat := UInt64.size - 1

/-- A line that is put to a handler. -/
structure Query where
  text : String
  position : Nat
deriving DecidableEq, Repr

/-- What a handler answers: where the walk goes on, and what happened.  A line is left alone if
the walk is to go on at its own position or before it. -/
structure Reply where
  next : Nat
  events : List Event
deriving DecidableEq, Repr

/-- A handler may remember all earlier queries of the performance, the oldest first. -/
abbrev Handler := List Query → Query → Reply

/-- A handler without a memory. -/
def Handler.ofFunction (reply : Query → Reply) : Handler :=
  fun _ query => reply query

/-- The reply that leaves a line alone. -/
def Reply.pass (query : Query) : Reply :=
  ⟨query.position, []⟩

end Typewriter

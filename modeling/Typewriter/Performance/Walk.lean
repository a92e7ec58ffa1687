import Typewriter.Command.Handler
import Typewriter.Script.Basic

/-!
# Walks

Between two lines a performance walks through its script without a stop: effects take place, and
lines that a handler takes care of are left behind.  A walk ends at a line that is to be typed, at
a pause, or behind the last cue.  It never turns back: `Walk.through` recurses on the cues that
are left, so each is visited at most once and the handler is asked at most once for each line.
-/

namespace Typewriter

/-- A cue that a walk came to, and its position. -/
structure Visit where
  position : Nat
  cue : Cue
deriving DecidableEq

/-- The query that a visited line is put to a handler with. -/
def Visit.query? (visit : Visit) : Option Query :=
  visit.cue.text?.map fun text => ⟨text, visit.position⟩

/-- Where a walk ends. -/
inductive Stop where
  /-- At a line that is to be typed. -/
  | line (position : Nat)
  /-- In a pause; the walk is to go on at the next position. -/
  | pause (length : Duration) (next : Nat)
  /-- Behind the last cue. -/
  | ending
deriving DecidableEq

/-- The visits of a walk, the events on the way, and its end. -/
structure Walk where
  visits : List Visit
  events : List Event
  stop : Stop
deriving DecidableEq

namespace Walk

/-- The walk that makes a visit first. -/
def visiting (walk : Walk) (visit : Visit) (events : List Event) : Walk :=
  { walk with visits := visit :: walk.visits, events := events ++ walk.events }

/-- Walk through the cues that start at `position`, leaving out the first `skip` of them.  `asked`
holds the earlier queries. -/
def through (handler : Handler) (asked : List Query) : Script → (position skip : Nat) → Walk
  | [], _, _ => ⟨[], [], .ending⟩
  | _ :: cues, position, skip + 1 => through handler asked cues (position + 1) skip
  | .effect name :: cues, position, 0 =>
      (through handler asked cues (position + 1) 0).visiting ⟨position, .effect name⟩ [.effect name]
  | .pause length :: _, position, 0 =>
      ⟨[⟨position, .pause length⟩], [], .pause length (position + 1)⟩
  | .line text :: cues, position, 0 =>
      let query : Query := ⟨text, position⟩
      let reply := handler asked query
      if position < reply.next then
        (through handler (asked ++ [query]) cues (position + 1)
          (reply.next - (position + 1))).visiting ⟨position, .line text⟩ reply.events
      else ⟨[⟨position, .line text⟩], reply.events, .line position⟩

end Walk

/-- Walk through a script from a position. -/
def Script.walkFrom (script : Script) (handler : Handler) (asked : List Query)
    (position : Nat) : Walk :=
  .through handler asked script 0 position

end Typewriter

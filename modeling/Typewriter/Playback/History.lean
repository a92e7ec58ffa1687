import Typewriter.Playback.Basic

/-!
# Playback histories

A history takes a playback through steps and reports after each what can be seen from outside.  A
playback may be stopped; from then on nothing changes but the time, and requests are refused.
-/

namespace Typewriter

/-- A playback that may have been stopped. -/
structure Playback.History where
  playback : Playback
  stopped : Bool := false

namespace Playback.History

/-- What can be done to a playback. -/
inductive Step where
  | request (request : Request)
  | sleep (millis : Nat)
  | stop
deriving DecidableEq

/-- What can be seen after a step.  Whether the screen changed is not known after a stop. -/
structure Report where
  screen : Screen
  changed : Option Bool
  now : Nat
  events : List Event
  refused : Bool
deriving DecidableEq

/-- What a refused request is told. -/
def refusal : String := "Player has stopped"

/-- What can be seen, with the events behind the first `known` ones. -/
def report (history : History) (known : Nat) (refused : Bool) : Report where
  screen := history.playback.published
  changed := if history.stopped then none else some history.playback.changed
  now := history.playback.now
  events := history.playback.performance.log.drop known
  refused := refused

/-- Take note of what was reported. -/
def reported (history : History) : History :=
  { history with playback := { history.playback with changed := false } }

/-- The history after a step, and whether the step was refused. -/
def perform (history : History) : Step → Except Fault (History × Bool)
  | .request request =>
      if history.stopped then .ok (history, true)
      else return ({ history with playback := ← history.playback.request request }, false)
  | .sleep millis =>
      if history.stopped then
        let now := history.playback.now + millis
        .ok ({ history with playback := { history.playback with now } }, false)
      else return ({ history with playback := ← history.playback.sleep millis }, false)
  | .stop => .ok ({ history with stopped := true }, false)

/-- Do a step. -/
def step (history : History) (step : Step) :
    Except Fault (History × Report) := do
  let (next, refused) ← history.perform step
  return (next.reported, next.report history.playback.performance.log.length refused)

/-- Do steps one after the other. -/
def steps (history : History) :
    List Step → Except Fault (History × List Report)
  | [] => .ok (history, [])
  | step :: rest => do
      let (next, report) ← history.step step
      let (last, reports) ← next.steps rest
      return (last, report :: reports)

/-- The performance that is left when the playback is let go. -/
def remains? (history : History) : Option Performance :=
  if history.stopped then none else some history.playback.performance

end Playback.History

end Typewriter

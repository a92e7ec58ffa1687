import Typewriter.Performance.Basic

/-!
# Sessions

A session drives a performance by hand, step by step, and reports what each step did.  It keeps the
alarms that it has seen pending, so that an alarm can be rung long after its time.
-/

namespace Typewriter

/-- A performance, and the alarms that were seen pending, the earliest first. -/
structure Performance.Session where
  performance : Performance
  seen : List Alarm := []

namespace Performance.Session

/-- What can be done in a session. -/
inductive Step where
  | advance
  /-- Ring the pending alarm. -/
  | ringPending
  /-- Ring pending alarms until there is none. -/
  | drain
  | load (script : Script)
  /-- Ring the alarm that was seen as the `index`-th, counted from zero. -/
  | ringSeen (index : Nat)
  /-- Ring an alarm that may never have been pending. -/
  | ringAlarm (alarm : Alarm)
deriving DecidableEq

/-- What a step tells about the alarms that it rang. -/
inductive Rung where
  | unasked
  | once (done : Bool)
  | drained (alarms : List Alarm)
deriving DecidableEq

/-- What a step did: the performance after it, the events on the way, and the alarms. -/
structure Report where
  performance : Performance
  events : List Event
  rung : Rung

/-- The most alarms that one step rings. -/
def drainLimit : Nat := 5000

/-- Begin a session. -/
def start (setup : Setup) (script : Script) : Except Fault Session :=
  match Performance.start setup script with
  | .ok performance => .ok ⟨performance, []⟩
  | .error fault => .error fault

/-- The report on the beginning of a session. -/
def opening (session : Session) : Report :=
  ⟨session.performance, session.performance.log, .unasked⟩

/-- Take notice of the pending alarm, unless it is the last one seen. -/
def notice (session : Session) : Session :=
  match session.performance.pending with
  | some alarm =>
      if session.seen.getLast? = some alarm then session
      else { session with seen := session.seen ++ [alarm] }
  | none => session

/-- The performance after a step, and what the step tells about alarms. -/
def perform (session : Session) : Step → Except Fault (Performance × Rung)
  | .advance => return (← session.performance.advance, .unasked)
  | .ringPending =>
      return (← session.performance.ringPending, .once session.performance.pending.isSome)
  | .drain => do
      let (performance, alarms) ← session.performance.drain drainLimit
      return (performance, .drained alarms)
  | .load script => return (← session.performance.load script, .unasked)
  | .ringSeen index =>
      match session.seen[index]? with
      | some alarm => return (← session.performance.ring alarm, .unasked)
      | none => return (session.performance, .unasked)
  | .ringAlarm alarm => return (← session.performance.ring alarm, .unasked)

/-- Do a step. -/
def step (session : Session) (step : Step) : Except Fault (Session × Report) := do
  let session := session.notice
  let (performance, rung) ← session.perform step
  let events := performance.log.drop session.performance.log.length
  return ({ session with performance }, ⟨performance, events, rung⟩)

/-- Do steps one after the other.  A fault stands in place of the report on its step, and ends the
session. -/
def reports (session : Session) : List Step → List (Except Fault Report)
  | [] => []
  | step :: rest =>
      match session.step step with
      | .error fault => [.error fault]
      | .ok (session, report) => .ok report :: session.reports rest

end Performance.Session

end Typewriter

import Typewriter.Performance.Screen

/-!
# Playback

A playback runs a performance against a clock.  It arms the pending alarm when it first sees it, for
the present time plus the delay of the alarm, and rings it when the clock gets there; requests of
the reader in between do not move the deadline.  After everything that happens the screen is
published.

Times are counted from the start, in whole milliseconds, and an alarm rings at the first of them
that is not before its deadline.  The clock itself was at some reading when the playback started, its
`origin`, and it has an end, so an alarm with a very long delay cannot be armed.
-/

namespace Typewriter

/-- An alarm and the time at which it is to ring, in nanoseconds since the start. -/
structure Armed where
  alarm : Alarm
  deadline : Nat
deriving DecidableEq

/-- The first millisecond that is not before the deadline. -/
def Armed.due (armed : Armed) : Nat :=
  (armed.deadline + (nanosPerMilli - 1)) / nanosPerMilli

/-- A performance on a clock. -/
structure Playback where
  performance : Performance
  /-- The reading of the clock at the start, in nanoseconds. -/
  origin : Nat := 0
  /-- The milliseconds since the start. -/
  now : Nat := 0
  armed : Option Armed := none
  /-- The screen that was published last. -/
  published : Screen
  /-- Whether a published screen differed from the one before it, since the last report. -/
  changed : Bool := false

/-- What a reader can ask for. -/
inductive Request where
  | advance
  | load (script : Script)
deriving DecidableEq

/-- The operation that meets a request. -/
def Request.operation : Request → Performance.Operation
  | .advance => .advance
  | .load script => .load script

namespace Script

/-- The number of pauses. -/
def pauseCount (script : Script) : Nat :=
  script.countP fun
    | .pause _ => true
    | _ => false

/-- The length of the longest line. -/
def longestLine (script : Script) : Nat :=
  ((script.filterMap Cue.text?).map String.length).foldl max 0

end Script

/-- The end of the clock, in nanoseconds: its seconds are below `2 ^ 63`. -/
def Playback.clockEnd : Nat := Nat.pow 2 63 * nanosPerSecond

/-- When the clock is at some reading, an alarm with this delay can be armed. -/
def Duration.ArmableAt (delay : Duration) (clock : Nat) : Prop :=
  clock + delay.nanos < Playback.clockEnd

instance (delay : Duration) (clock : Nat) : Decidable (delay.ArmableAt clock) :=
  inferInstanceAs (Decidable (_ < _))

theorem Duration.ArmableAt.mono {delay : Duration} {clock earlier : Nat}
    (harmable : delay.ArmableAt clock) (hle : earlier ≤ clock) : delay.ArmableAt earlier :=
  Nat.lt_of_le_of_lt (Nat.add_le_add_right hle _) harmable

namespace Playback

/-- Why a playback breaks off. -/
inductive Fault where
  | performance (cause : Performance.Fault)
  | clockExceeded
deriving DecidableEq, Repr

/-- The fault in words. -/
def Fault.message : Fault → String
  | .performance cause => cause.message
  | .clockExceeded => "overflow when adding duration to instant"

/-- The present reading of the clock, in nanoseconds. -/
def clock (b : Playback) : Nat :=
  b.origin + b.now * nanosPerMilli

/-- Publish the present screen. -/
def publish (b : Playback) : Playback :=
  let screen := b.performance.screen
  if screen = b.published then b else { b with published := screen, changed := true }

/-- Arm the pending alarm, unless it is armed already. -/
def arm (b : Playback) : Except Fault Playback :=
  match b.performance.pending with
  | none => .ok { b with armed := none }
  | some alarm =>
      if b.armed.map Armed.alarm = some alarm then .ok b
      else if alarm.delay.ArmableAt b.clock then
        .ok { b with armed := some ⟨alarm, b.now * nanosPerMilli + alarm.delay.nanos⟩ }
      else .error .clockExceeded

/-- Go on with what has become of the performance. -/
def continueWith (b : Playback) (result : Except Performance.Fault Performance) :
    Except Fault Playback :=
  match result with
  | .ok performance => { b with performance }.publish.arm
  | .error cause => .error (.performance cause)

/-- Ring the armed alarm at a time. -/
def ringAt (b : Playback) (time : Nat) (armed : Armed) : Except Fault Playback :=
  { b with now := time, armed := none }.continueWith (b.performance.ring armed.alarm)

/-- Ring all alarms that are due at a time or before, but no more than `limit`. -/
def ringDue (limit : Nat) (b : Playback) (time : Nat) : Except Fault Playback :=
  match limit, b.armed with
  | limit + 1, some armed =>
      if armed.due ≤ time then
        match b.ringAt (max b.now armed.due) armed with
        | .ok next => ringDue limit next time
        | .error fault => .error fault
      else .ok b
  | _, _ => .ok b

/-- As many alarms can ring one after the other, with no request in between. -/
def alarmLimit (b : Playback) : Nat :=
  b.performance.script.pauseCount + b.performance.script.longestLine + 1

/-- Let the clock run up to a time. -/
def runUntil (b : Playback) (time : Nat) : Except Fault Playback :=
  match b.ringDue b.alarmLimit time with
  | .ok b => .ok { b with now := time }
  | .error fault => .error fault

/-- Let so many milliseconds pass. -/
def sleep (b : Playback) (millis : Nat) : Except Fault Playback :=
  b.runUntil (b.now + millis)

/-- Carry out a request, and ring all alarms that are due at once. -/
def request (b : Playback) (request : Request) : Except Fault Playback :=
  match b.continueWith (b.performance.apply request.operation) with
  | .ok b => b.sleep 0
  | .error fault => .error fault

/-- A performance that has just started, on a clock with this reading. -/
def opening (performance : Performance) (origin : Nat) : Playback :=
  { performance, origin, published := performance.screen }

/-- Start a script on a clock with this reading. -/
def start (setup : Setup) (script : Script) (origin : Nat := 0) : Except Fault Playback :=
  match Performance.start setup script with
  | .error cause => .error (.performance cause)
  | .ok performance =>
      match (opening performance origin).arm with
      | .ok b => b.sleep 0
      | .error fault => .error fault

end Playback

end Typewriter

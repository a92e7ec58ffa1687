import Typewriter.Performance.Walk
import Typewriter.Setup
import Typewriter.Text.Split

/-!
# Performances

A performance types the lines of a script, character by character.  It never waits: whenever time
has to pass it leaves one pending alarm, and its owner rings that alarm after its delay.  Besides
alarms, it reacts to the reader, who asks to go on, and to a new script, which starts from the
beginning.

Alarms carry the edition of the script and a serial number, so that an alarm that was cancelled or
replaced is told from the pending one and has no effect.

The only fault is a delay too long for a duration.
-/

namespace Typewriter

/-- The text behind the end of a script whose end is not announced. -/
def closingText : String := "Done!"

/-- What a performance is about. -/
inductive Phase where
  /-- A line is being typed, or none was reached yet. -/
  | typing
  /-- Kept for waits within a line; never entered. -/
  | waiting
  /-- The line at the cursor is shown in full. -/
  | shown
  /-- The script has come to its end. -/
  | ended
deriving DecidableEq, Repr

/-- What is to happen when an alarm rings. -/
inductive Purpose where
  /-- Type the next character of the line at a position. -/
  | typeNext (position : Nat)
  /-- Walk on from a position. -/
  | walkOn (position : Nat)
deriving DecidableEq, Repr

/-- A wait, and what is to happen after it. -/
structure Alarm where
  edition : Nat
  serial : Nat
  delay : Duration
  purpose : Purpose
deriving DecidableEq

/-- A script on stage. -/
structure Performance where
  setup : Setup
  script : Script
  /-- The number of scripts before this one. -/
  edition : Nat := 0
  /-- The position of the line on show; behind the script at its end. -/
  cursor : Nat := 0
  /-- The visible text. -/
  shown : String := ""
  /-- The count of the visible characters, kept beside the text. -/
  revealed : Nat := 0
  phase : Phase := .typing
  /-- Whether the reader is heard.  During a pause he is not. -/
  live : Bool := false
  pending : Option Alarm := none
  /-- The serial number of the next alarm of this edition. -/
  nextSerial : Nat := 0
  /-- How many characters have been typed one by one, in all editions. -/
  typed : Nat := 0
  /-- All cues that were visited, the earliest first. -/
  trail : List Visit := []
  /-- All events, the earliest first. -/
  log : List Event := []

namespace Performance

/-- Why a performance breaks off. -/
inductive Fault where
  | delayTooLong
deriving DecidableEq, Repr

/-- The fault in words. -/
def Fault.message : Fault → String
  | .delayTooLong => "overflow when adding durations"

/-- The lines that were put to the handler, the earliest first. -/
def asked (p : Performance) : List Query :=
  p.trail.filterMap Visit.query?

/-- Leave an alarm in place of the pending one. -/
def schedule (p : Performance) (delay : Duration) (purpose : Purpose) : Performance :=
  { p with
    pending := some ⟨p.edition, p.nextSerial, delay, purpose⟩
    nextSerial := p.nextSerial + 1 }

/-- Cancel the pending alarm. -/
def cancel (p : Performance) : Performance :=
  { p with pending := none }

/-- Show one more character. -/
def typeChar (p : Performance) (c : Char) : Performance :=
  { p with shown := p.shown.push c, revealed := p.revealed + 1, typed := p.typed + 1 }

/-- Show a line in full, and cancel the pending alarm. -/
def showWhole (p : Performance) (line : String) : Performance :=
  { p with shown := line, revealed := line.length, phase := .shown, pending := none }

/-- Type one more character of a line and leave an alarm for the next.  A line with no more than one
character left is shown in full. -/
def typeNext (p : Performance) (line : String) (position : Nat) : Except Fault Performance :=
  if line.length ≤ p.revealed + 1 then .ok (p.showWhole line)
  else
    match Text.afterBytes? p.shown.utf8ByteSize line.toList with
    | some (c :: _) =>
        let isLast := p.revealed + 1 = line.length
        match p.setup.tempo.delay? (p.setup.noise p.typed) c isLast with
        | none => .error .delayTooLong
        | some delay => .ok ((p.typeChar c).schedule delay (.typeNext position))
    | _ => .ok (p.showWhole line)

/-- Begin the line at a position. -/
def beginLine (p : Performance) (position : Nat) : Except Fault Performance :=
  let p := { p with cursor := position, shown := "", revealed := 0 }
  match p.script.lineAt? position with
  | none => .ok p
  | some line =>
      if p.setup.tempo.isInstant then .ok (p.showWhole line)
      else { p with phase := .typing }.typeNext line position

/-- Come to the end, unless it has been reached before. -/
def finish (p : Performance) : Performance :=
  if p.phase = .ended then p
  else
    let p := { p with phase := .ended, cursor := p.script.length, pending := none }
    if p.setup.announcesEnd then { p with log := p.log ++ [.complete] }
    else { p with shown := closingText, revealed := closingText.length }

/-- The walk from a position. -/
def walkFrom (p : Performance) (position : Nat) : Walk :=
  p.script.walkFrom p.setup.handler p.asked position

/-- Put down the visits and events of a walk, and whether the reader is heard after it. -/
def record (p : Performance) (walk : Walk) (live : Bool) : Performance :=
  { p with trail := p.trail ++ walk.visits, log := p.log ++ walk.events, live := live }

/-- Walk on from a position, to the next line, pause, or end. -/
def walkOn (p : Performance) (position : Nat) : Except Fault Performance :=
  let walk := p.walkFrom position
  match walk.stop with
  | .line position => (p.record walk true).beginLine position
  | .pause length next => .ok ((p.record walk false).schedule length (.walkOn next))
  | .ending => .ok (p.record walk true).finish

/-- Start a script. -/
def start (setup : Setup) (script : Script) : Except Fault Performance :=
  ({ setup, script } : Performance).walkOn 0

/-- Put another script in place of the present one, before its first cue. -/
def reload (p : Performance) (script : Script) : Performance :=
  { p with
    script := script
    edition := p.edition + 1
    cursor := 0
    shown := ""
    revealed := 0
    phase := .typing
    live := false
    pending := none
    nextSerial := 0 }

/-- Start another script in place of the present one. -/
def load (p : Performance) (script : Script) : Except Fault Performance :=
  (p.reload script).walkOn 0

/-- The reader asks to go on.  A line that is being typed is shown in full; behind a line in full the
walk goes on. -/
def advance (p : Performance) : Except Fault Performance :=
  if p.live then
    match p.phase with
    | .typing =>
        match p.script.lineAt? p.cursor with
        | some line => .ok (p.showWhole line)
        | none => .ok p
    | .shown => p.walkOn (p.cursor + 1)
    | .waiting => .ok p
    | .ended => .ok p
  else .ok p

/-- An alarm rings.  Only the pending alarm has an effect. -/
def ring (p : Performance) (alarm : Alarm) : Except Fault Performance :=
  if alarm.edition = p.edition ∧ p.pending = some alarm then
    match alarm.purpose with
    | .typeNext position =>
        match p.script.lineAt? position with
        | some line => p.cancel.typeNext line position
        | none => .ok p.cancel
    | .walkOn position => p.cancel.walkOn position
  else .ok p

/-- Something that is done to a performance. -/
inductive Operation where
  | advance
  | load (script : Script)
  | ring (alarm : Alarm)
deriving DecidableEq

/-- Carry out an operation. -/
def apply (p : Performance) : Operation → Except Fault Performance
  | .advance => p.advance
  | .load script => p.load script
  | .ring alarm => p.ring alarm

/-- Carry out operations one after the other. -/
def run (p : Performance) : List Operation → Except Fault Performance
  | [] => .ok p
  | operation :: rest =>
      match p.apply operation with
      | .error fault => .error fault
      | .ok p => p.run rest

/-- Ring the pending alarm, if there is one. -/
def ringPending (p : Performance) : Except Fault Performance :=
  match p.pending with
  | some alarm => p.ring alarm
  | none => .ok p

/-- Ring pending alarms until there is none, but no more than `limit` of them.  The result holds the
alarms that rang. -/
def drain (limit : Nat) (p : Performance) : Except Fault (Performance × List Alarm) :=
  match limit, p.pending with
  | limit + 1, some alarm =>
      match p.ring alarm with
      | .error fault => .error fault
      | .ok next =>
          match drain limit next with
          | .error fault => .error fault
          | .ok (last, alarms) => .ok (last, alarm :: alarms)
  | _, _ => .ok (p, [])

end Performance

end Typewriter

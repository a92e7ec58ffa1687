import Typewriter.Options.Arguments
import Typewriter.Playback.Basic
import Typewriter.Script.File

/-!
# The terminal

The program reads its options and a script, plays the script on the terminal, and goes on whenever a
line comes in.  Here is what remains of a run in which no alarm gets its time, for the clock stands
still: the exit code, the last screen, and the messages.

A run may break off all the same, at a pause that is too long for the clock.  What was on the screen
by then depends on who came first, so nothing is said of it.
-/

namespace Typewriter.Terminal

/-- Whether some bytes are a text in UTF-8. -/
def isUtf8 (bytes : List UInt8) : Bool :=
  (String.fromUTF8? ⟨bytes.toArray⟩).isSome

/-- The number of lines of an input that can be read: all lines before the first that is no text in
UTF-8. -/
def lineCount (input : ByteArray) : Nat :=
  ((Text.lines 10 input.toList).takeWhile isUtf8).length

/-- A cause in a report, behind its head, with its lines below one another. -/
def reportCause (head cause : String) : String :=
  let margin := String.ofList (List.replicate head.length ' ')
  head ++ String.intercalate ("\n" ++ margin) (cause.splitOn "\n") ++ "\n"

/-- The head of a numbered cause: its number, which ends in the fifth column. -/
def numberHead (number : Nat) : String :=
  let digits := toString number
  String.ofList (List.replicate (5 - digits.length) ' ') ++ digits ++ ": "

/-- A report on an error: what went wrong, and below it the causes, the outermost first.  A single
cause bears no number. -/
def report (message : String) (causes : List String) : String :=
  let body :=
    match causes with
    | [cause] => reportCause "    " cause
    | causes =>
        String.join (causes.mapIdx fun number cause => reportCause (numberHead number) cause)
  "Error: " ++ message ++ "\n\nCaused by:\n" ++ body

/-- What remains of a run. -/
inductive Outcome where
  /-- The arguments are wrong, or ask for help. -/
  | refused (refusal : Options.Refusal)
  /-- There is no script to play. -/
  | unreadable (path : String) (fault : Script.FileFault)
  /-- The playback broke off. -/
  | broken (fault : Playback.Fault)
  /-- The script was played; the frame is the last one drawn. -/
  | played (frame : String)

namespace Outcome

/-- The exit code. -/
def exitCode : Outcome → Nat
  | .refused (.misuse _) => 2
  | .refused _ => 0
  | .unreadable _ _ => 1
  | .broken _ => 1
  | .played _ => 0

/-- The messages of a run, except for those on wrong arguments.  Where a playback breaks off, it is
the report on that, without the place in the program; if there are lines to be handed on yet, the
program may find before that the player has stopped. -/
def messages : Outcome → String
  | .unreadable path fault => report ("Failed to parse script file: " ++ path) fault.chain
  | .broken fault => report "Player task failed" [fault.message]
  | _ => ""

/-- What the terminal shows in the end: what was sent to it since it was cleared last. -/
def lastScreen? : Outcome → Option String
  | .played frame =>
      let parts := (frame ++ "\n").splitOn "\x1b[2J"
      parts.getLast?.map ("\x1b[2J" ++ ·)
  | _ => none

end Outcome

/-- Let the reader ask to go on so many times, while the clock stands still. -/
def goOn (b : Playback) : Nat → Except Playback.Fault Playback
  | 0 => .ok b
  | lines + 1 =>
      match b.continueWith b.performance.advance with
      | .ok b => goOn b lines
      | .error fault => .error fault

/-- The playback of a script when so many lines come in, on a clock that stands at a reading. -/
def play (setup : Setup) (script : Script) (lines origin : Nat) : Except Playback.Fault Playback :=
  match Performance.start setup script with
  | .error cause => .error (.performance cause)
  | .ok performance => do goOn (← (Playback.opening performance origin).arm) lines

/-- Run the program in the directory `here`; `input` is all that comes in, and `origin` the reading
at which the clock stands. -/
def run (arguments : List String) (here : Disk.Place) (input : ByteArray) (origin : Nat := 0) :
    Outcome :=
  match Options.ofArguments arguments with
  | .error refusal => .refused refusal
  | .ok options =>
      let (content, rest) := here.read options.script input
      match Script.ofFile options.script content with
      | .error fault => .unreadable options.script fault
      | .ok script =>
          match play options.setup script (lineCount rest) origin with
          | .ok b => .played b.performance.frame
          | .error fault => .broken fault

end Typewriter.Terminal

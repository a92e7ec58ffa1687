import Typewriter.Options.Help
import Typewriter.Playback.Basic
import Typewriter.Terminal

/-!
# The program

The program plays a script on the terminal against the clock of the machine.  It only reads, waits
and prints; what there is to print is decided by `Playback` and `Terminal`.
-/

namespace Typewriter.Program

/-- What lies at a path on the disk of this machine. -/
def readDisk (path : String) : IO (Except Disk.Fault ByteArray) := do
  if '\x00' ∈ path.toList then
    return .error .nul
  try
    return .ok (← IO.FS.readBinFile path)
  catch
    | .noFileOrDirectory .. => return .error .missing
    | .inappropriateType (some _) .. => return .error .notDirectory
    | .inappropriateType none .. => return .error .directory
    | .invalidArgument .. => return .error .tooLong
    | .permissionDenied .. => return .error (.refused "Permission denied (os error 13)")
    | fault => return .error (.refused (toString fault))

/-- Wait for a line; the answer is whether one came. -/
def awaitLine : IO Bool := do
  try
    return !(← (← IO.getStdin).getLine).isEmpty
  catch _ => return false

/-- Print at once. -/
def display (text : String) : IO Unit := do
  IO.print text
  (← IO.getStdout).flush

/-- Draw the screen if it has changed. -/
def draw (b : Playback) : IO Playback := do
  if b.changed then
    display b.performance.frame
  return { b with changed := false }

/-- Play on until the script or the input has come to its end.  `line` is the line that is awaited,
and `start` the time at which the playback began. -/
partial def playOn (start : Nat) (line : Task (Except IO.Error Bool)) (b : Playback) :
    IO (Except Playback.Fault Playback) := do
  let elapsed := (← IO.monoMsNow) - start
  match b.runUntil (max b.now elapsed) with
  | .error fault => return .error fault
  | .ok b =>
      let b ← draw b
      if b.performance.phase = .ended then
        return .ok b
      else if ← IO.hasFinished line then
        match line.get with
        | .ok true =>
            match b.request .advance with
            | .error fault => return .error fault
            | .ok b => playOn start (← IO.asTask awaitLine .dedicated) b
        | _ => return .ok b
      else
        IO.sleep 1
        playOn start line b

/-- Draws that follow from a seed, each from a generator of its own. -/
def noiseFrom (seed n : Nat) : Nat :=
  let generator := mkStdGen (seed + n * 7919)
  (stdNext generator).1

/-- Play a script. -/
def play (setup : Setup) (script : Script) : IO (Except Playback.Fault Playback) := do
  match Playback.start setup script (← IO.monoNanosNow) with
  | .error fault => return .error fault
  | .ok b =>
      playOn (← IO.monoMsNow) (← IO.asTask awaitLine .dedicated) (← draw { b with changed := true })

/-- Run the program; the answer is its exit code. -/
def run (arguments : List String) : IO UInt32 := do
  match Options.ofArguments arguments with
  | .error (.misuse cause) =>
      IO.eprintln ("error: " ++ cause.message)
      return 2
  | .error refusal =>
      display refusal.answer
      return 0
  | .ok options =>
      match Script.ofFile options.script (← readDisk options.script) with
      | .error fault =>
          IO.eprint (Terminal.Outcome.unreadable options.script fault).messages
          return 1
      | .ok script =>
          let seed ← IO.rand 0 1000000000
          match ← play { options.setup with noise := noiseFrom seed } script with
          | .error fault =>
              IO.eprint (Terminal.Outcome.broken fault).messages
              return 1
          | .ok b =>
              display (b.performance.frame ++ "\n")
              return 0

end Typewriter.Program

/-- The entry point of the program. -/
def main (arguments : List String) : IO UInt32 :=
  Typewriter.Program.run arguments

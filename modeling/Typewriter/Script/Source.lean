import Typewriter.Duration.Literal
import Typewriter.Script.Basic
import Typewriter.Script.Comment
import Typewriter.Script.Quotation
import Typewriter.Text.Split

/-!
# Script sources

A script is written one cue a line: `say` and a quotation, or `wait` and a duration.  Blank lines
and comments count as lines, but hold no cue.  The first bad line ends the reading, and its number
and text go into the fault.
-/

namespace Typewriter.Script

/-- Why the code of a line is no cue. -/
inductive CueFault where
  | keyword (word : String)
  | quotation (cause : Quotation.Fault)
  | duration (cause : Duration.Fault)
deriving DecidableEq, Repr

/-- A line that is no cue: its number, counted from one, its code, and the cause. -/
structure SourceFault where
  number : Nat
  code : String
  cause : CueFault
deriving DecidableEq, Repr

/-- Read the argument of a keyword. -/
def readArgument (keyword argument : List Char) : Except CueFault Cue :=
  if keyword = ['s', 'a', 'y'] then
    match Quotation.read argument with
    | .ok text => .ok (.line text)
    | .error cause => .error (.quotation cause)
  else if keyword = ['w', 'a', 'i', 't'] then
    match Duration.read argument with
    | .ok length => .ok (.pause length)
    | .error cause => .error (.duration cause)
  else .error (.keyword (String.ofList keyword))

/-- Read the code of a line.  The keyword ends at the first space. -/
def readCue (code : List Char) : Except CueFault Cue :=
  match Text.splitFirst? ' ' code with
  | some (keyword, argument) => readArgument keyword argument
  | none => readArgument code []

/-- The code of a line that holds a cue: no blanks around it, and no comment. -/
def code? (line : List Char) : Option (List Char) :=
  match Text.trim line with
  | [] => none
  | '#' :: _ => none
  | text => some (Text.trim (Comment.code false text))

/-- Read lines, the first of which has the number `number`. -/
def readLines (number : Nat) : List (List Char) → Except SourceFault Script
  | [] => .ok []
  | line :: rest =>
      match code? line with
      | none => readLines (number + 1) rest
      | some code =>
          match readCue code with
          | .error cause => .error ⟨number, String.ofList code, cause⟩
          | .ok cue =>
              match readLines (number + 1) rest with
              | .error fault => .error fault
              | .ok cues => .ok (cue :: cues)

/-- Read a script. -/
def read (source : String) : Except SourceFault Script :=
  readLines 1 (Text.lines '\n' source.toList)

/-- The fault in words, the outermost cause first. -/
def CueFault.chain : CueFault → List String
  | .keyword word => ["Unknown keyword: " ++ word]
  | .quotation cause => [cause.message]
  | .duration cause => cause.chain

/-- The fault in words, the outermost cause first. -/
def SourceFault.chain (fault : SourceFault) : List String :=
  ("Failed to parse line " ++ toString fault.number ++ ": " ++ fault.code) :: fault.cause.chain

end Typewriter.Script

import Typewriter.Disk
import Typewriter.Script.Source

/-!
# Script files

A script file holds the source of a script in UTF-8.  What was read from the disk is an argument
here, so that the reading of a script is a function of it.
-/

namespace Typewriter.Script

/-- Why a file gives no script. -/
inductive FileFault where
  /-- Nothing can be read at the path. -/
  | access (path : String) (cause : Disk.Fault)
  /-- What lies at the path is no text in UTF-8. -/
  | encoding (path : String)
  | source (cause : SourceFault)
deriving DecidableEq, Repr

/-- Read a script from what lies at a path. -/
def ofFile (path : String) (content : Except Disk.Fault ByteArray) : Except FileFault Script :=
  match content with
  | .error cause => .error (.access path cause)
  | .ok content =>
      match String.fromUTF8? content with
      | none => .error (.encoding path)
      | some text =>
          match read text with
          | .error cause => .error (.source cause)
          | .ok script => .ok script

/-- What is said of a path at which no text can be read, for a reason in words. -/
def unreadable (path reason : String) : List String :=
  ["Failed to read script file: " ++ path, reason]

/-- The fault in words, the outermost cause first. -/
def FileFault.chain : FileFault → List String
  | .access path cause => unreadable path cause.message
  | .encoding path => unreadable path "stream did not contain valid UTF-8"
  | .source cause => cause.chain

end Typewriter.Script

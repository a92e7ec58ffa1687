import Typewriter.Duration.Basic
import Typewriter.Numeral
import Typewriter.Text.Blank
import Typewriter.Text.Split

/-!
# Rests on the command line

A rest after a character is written as the character, an equals sign, and milliseconds.  The last
equals sign separates, so that there can be a rest after an equals sign too.
-/

namespace Typewriter.Options

/-- Why a text is no rest. -/
inductive RestFault where
  | unseparated (text : String)
  | notOneCharacter (text : String)
  | millis (cause : Numeral.Fault)
deriving DecidableEq, Repr

/-- Read a rest. -/
def readRest (text : String) : Except RestFault (Char × Duration) :=
  match Text.splitLast? '=' text.toList with
  | none => .error (.unseparated text)
  | some ([c], millis) =>
      match Numeral.read (Text.trim millis) with
      | .ok m => .ok (c, .ofMillis m)
      | .error cause => .error (.millis cause)
  | some (characters, _) => .error (.notOneCharacter (String.ofList characters))

/-- The fault in words, the outermost cause first. -/
def RestFault.chain : RestFault → List String
  | .unseparated text => ["Expected CHAR=MS, got: " ++ text]
  | .notOneCharacter text => ["Expected a single character before '=', got: " ++ text]
  | .millis cause => ["Invalid milliseconds value", cause.message]

end Typewriter.Options

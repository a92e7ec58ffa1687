import Typewriter.Duration.Basic

/-!
# Scripts

A script is a sequence of cues: lines to be typed, pauses, and effects that happen at once.  The
position of a cue in the sequence is its only name.
-/

namespace Typewriter

/-- One step of a script. -/
inductive Cue where
  /-- A line to be typed, or a command in disguise. -/
  | line (text : String)
  /-- A wait that no reader can shorten. -/
  | pause (length : Duration)
  /-- A named effect, which takes no time. -/
  | effect (name : String)
deriving DecidableEq

/-- The text of a line. -/
def Cue.text? : Cue → Option String
  | .line text => some text
  | _ => none

/-- A sequence of cues. -/
abbrev Script := List Cue

namespace Script

/-- The text of the line at a position. -/
def lineAt? (script : Script) (position : Nat) : Option String :=
  script[position]?.bind Cue.text?

theorem lineAt?_eq_some_iff {script : Script} {position : Nat} {text : String} :
    script.lineAt? position = some text ↔ script[position]? = some (.line text) := by
  unfold lineAt?
  cases script[position]? with
  | none => simp
  | some cue => cases cue <;> simp [Cue.text?]

end Script

end Typewriter

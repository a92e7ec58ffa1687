import Typewriter.Options.Basic
import Typewriter.Options.Rest

/-!
# Drafts of options

While the arguments are read, a draft holds the values of the options that have come.  Most options
may be given once; rests pile up.
-/

namespace Typewriter.Options

/-- What is wrong with the arguments. -/
inductive Misuse where
  | unknownArgument
  /-- A value for a switch. -/
  | unexpectedValue
  /-- No value for an option. -/
  | missingValue
  /-- An option that was given before. -/
  | repeated
  /-- A value that the option cannot have. -/
  | malformedValue
  | missingScript
deriving DecidableEq, Repr

/-- Why arguments give no options. -/
inductive Refusal where
  | misuse (cause : Misuse)
  /-- Help was asked for. -/
  | help
  /-- The version was asked for. -/
  | version
deriving DecidableEq, Repr

/-- An option with a value. -/
inductive Key where
  | script
  | speed
  | delimiter
  | rest
  | marker
  | jitter
deriving DecidableEq, Repr

/-- The misuse in words. -/
def Misuse.message : Misuse → String
  | .unknownArgument => "unexpected argument found"
  | .unexpectedValue => "unexpected value for an option that takes none"
  | .missingValue => "a value is required for an option but none was supplied"
  | .repeated => "an option cannot be used multiple times"
  | .malformedValue => "invalid value for an option"
  | .missingScript => "the script was not provided"

/-- The values of the options that were read so far. -/
structure Draft where
  script : Option String := none
  speed : Option UInt64 := none
  delimiter : Option String := none
  rests : List (Char × Duration) := []
  marker : Option String := none
  jitter : Option UInt64 := none
deriving DecidableEq

namespace Draft

/-- A value for an option that may be given once. -/
def once {α : Type} (old value : Option α) : Except Refusal α :=
  match old, value with
  | some _, _ => .error (.misuse .repeated)
  | none, some value => .ok value
  | none, none => .error (.misuse .malformedValue)

/-- A number, if a value is one. -/
def number? (value : String) : Option UInt64 :=
  (Numeral.read value.toList).toOption

/-- Give an option a value. -/
def set (draft : Draft) (key : Key) (value : String) : Except Refusal Draft :=
  match key with
  | .script => return { draft with script := ← once draft.script (some value) }
  | .speed => return { draft with speed := ← once draft.speed (number? value) }
  | .delimiter => return { draft with delimiter := ← once draft.delimiter (some value) }
  | .marker => return { draft with marker := ← once draft.marker (some value) }
  | .jitter => return { draft with jitter := ← once draft.jitter (number? value) }
  | .rest =>
      match readRest value with
      | .ok rest => .ok { draft with rests := draft.rests ++ [rest] }
      | .error _ => .error (.misuse .malformedValue)

/-- The options of a draft.  Only the script has to be given. -/
def toOptions (draft : Draft) : Except Refusal Options :=
  match draft.script with
  | none => .error (.misuse .missingScript)
  | some script =>
      let options : Options := { script }
      .ok
        { options with
          speed := draft.speed.getD options.speed
          delimiter := draft.delimiter
          rests := draft.rests
          marker := draft.marker
          jitter := draft.jitter.getD options.jitter }

end Draft

end Typewriter.Options

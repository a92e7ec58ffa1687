import Typewriter.Options.Draft

/-!
# Arguments

Options are read from a list of arguments, from left to right.  A long option starts with two
hyphens and may hold its value behind an equals sign; a short one starts with one hyphen and a
letter, and its value may follow at once.  Otherwise the value is the next argument that does not
start with a hyphen (a lone hyphen may be a value).

A value from an argument of its own is examined only when the next option comes, or at the end.  So a
fault that is found in between, such as an unknown option, is the one that counts.
-/

namespace Typewriter.Options

/-- A long option. -/
inductive LongName where
  | key (key : Key)
  | help
  | version

/-- The long option of a name. -/
def longName? (name : String) : Option LongName :=
  match name with
  | "script" => some (.key .script)
  | "speed" => some (.key .speed)
  | "delimiter" => some (.key .delimiter)
  | "delay" => some (.key .rest)
  | "cursor" => some (.key .marker)
  | "jitter" => some (.key .jitter)
  | "help" => some .help
  | "version" => some .version
  | _ => none

/-- An option that has not been settled: its value, if it has come, was an argument of its own. -/
structure Open where
  key : Key
  value : Option String := none
deriving DecidableEq

/-- The state of the reading between two arguments. -/
structure Reading where
  draft : Draft := {}
  last : Option Open := none
deriving DecidableEq

namespace Reading

/-- Settle the last option. -/
def settle (reading : Reading) : Except Refusal Draft :=
  match reading.last with
  | none => .ok reading.draft
  | some ⟨_, none⟩ => .error (.misuse .missingValue)
  | some ⟨key, some value⟩ => reading.draft.set key value

/-- Settle the last option and begin another, which may hold its value. -/
def begin (reading : Reading) (key : Key) (value : Option String) : Except Refusal Reading := do
  let draft ← reading.settle
  match value with
  | none => return ⟨draft, some ⟨key, none⟩⟩
  | some value => return ⟨← draft.set key value, none⟩

/-- Settle the last option and stop. -/
def stop (reading : Reading) (refusal : Refusal) : Except Refusal Reading := do
  let _ ← reading.settle
  throw refusal

/-- Read a long option without its hyphens. -/
def readLong (reading : Reading) (text : List Char) : Except Refusal Reading :=
  let (name, value) :=
    match Text.splitFirst? '=' text with
    | some (name, value) => (name, some (String.ofList value))
    | none => (text, none)
  match longName? (String.ofList name), value with
  | none, _ => .error (.misuse .unknownArgument)
  | some (.key key), value => reading.begin key value
  | some .help, none => reading.stop .help
  | some .version, none => reading.stop .version
  | some _, some _ => .error (.misuse .unexpectedValue)

/-- The value that follows the letter of a short option at once.  An equals sign in front is not part
of it. -/
def attached? : List Char → Option String
  | [] => none
  | '=' :: value => some (String.ofList value)
  | value => some (String.ofList value)

/-- Read a short option without its hyphen. -/
def readShort (reading : Reading) (letter : Char) (text : List Char) : Except Refusal Reading :=
  match letter with
  | 's' => reading.begin .script (attached? text)
  | 'd' => reading.begin .delimiter (attached? text)
  | 'h' => reading.stop .help
  | 'V' => reading.stop .version
  | _ => .error (.misuse .unknownArgument)

/-- Read an argument that is no option. -/
def readValue (reading : Reading) (text : List Char) : Except Refusal Reading :=
  match reading.last with
  | some ⟨key, none⟩ => .ok { reading with last := some ⟨key, some (String.ofList text)⟩ }
  | _ => .error (.misuse .unknownArgument)

/-- Read an argument. -/
def read (reading : Reading) (argument : List Char) : Except Refusal Reading :=
  match argument with
  | '-' :: '-' :: text => reading.readLong text
  | '-' :: letter :: text => reading.readShort letter text
  | text => reading.readValue text

/-- Read arguments to the end.  Nothing may follow two hyphens. -/
def readAll (reading : Reading) : List (List Char) → Except Refusal Draft
  | [] => reading.settle
  | ['-', '-'] :: rest => if rest.isEmpty then reading.settle else .error (.misuse .unknownArgument)
  | argument :: rest => do (← reading.read argument).readAll rest

end Reading

/-- The options that arguments ask for. -/
def ofArguments (arguments : List String) : Except Refusal Options := do
  (← ({} : Reading).readAll (arguments.map String.toList)).toOptions

end Typewriter.Options

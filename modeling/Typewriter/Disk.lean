/-!
# Files on a disk

A path is a row of names between slashes.  It is followed name by name, from the root of the disk if
it begins with a slash, and else from the directory in which the program runs.  What a path leads to
is worked out here on a disk that is given as a value, so that a reading can be stated without a
machine.
-/

namespace Typewriter.Disk

/-- Why nothing can be read at a path. -/
inductive Fault where
  /-- The path holds the character NUL, which no name does. -/
  | nul
  /-- There is nothing of that name, or the path is empty. -/
  | missing
  /-- A name is looked up below something that is not a directory. -/
  | notDirectory
  /-- A name of the path, or the path as a whole, is too long. -/
  | tooLong
  /-- The path leads to a directory. -/
  | directory
  /-- The machine refuses the reading for another reason, which it gives. -/
  | refused (reason : String)
deriving DecidableEq, Repr

/-- The fault in words. -/
def Fault.message : Fault → String
  | .nul => "file name contained an unexpected NUL byte"
  | .missing => "No such file or directory (os error 2)"
  | .notDirectory => "Not a directory (os error 20)"
  | .tooLong => "File name too long (os error 36)"
  | .directory => "Is a directory (os error 21)"
  | .refused reason => reason

/-- What a name stands for. -/
inductive Node where
  | file (content : ByteArray)
  /-- The input of the program, which a reading uses up. -/
  | input
  | directory (entries : List (String × Node))

/-- A place on a disk: what is there, and the directories above it, the nearest first. -/
structure Place where
  node : Node
  above : List Node

/-- The largest number of bytes in a name. -/
def maxNameBytes : Nat := 255

/-- The largest number of bytes in a path. -/
def maxPathBytes : Nat := 4095

namespace Place

/-- The root of the disk. -/
def root (here : Place) : Place :=
  match here.above.getLast? with
  | some node => ⟨node, []⟩
  | none => ⟨here.node, []⟩

/-- The place above; the root lies above itself. -/
def parent (here : Place) : Place :=
  match here.above with
  | [] => here
  | node :: above => ⟨node, above⟩

/-- Follow one name.  An empty name and a single dot stay in a directory, and two dots leave it. -/
def step (here : Place) (name : String) : Except Fault Place :=
  match here.node with
  | .directory entries =>
      if name = "" ∨ name = "." then .ok here
      else if name = ".." then .ok here.parent
      else if maxNameBytes < name.utf8ByteSize then .error .tooLong
      else
        match entries.lookup name with
        | some node => .ok ⟨node, here.node :: here.above⟩
        | none => .error .missing
  | _ => .error .notDirectory

/-- Follow names one after the other. -/
def follow (here : Place) : List String → Except Fault Place
  | [] => .ok here
  | name :: names =>
      match here.step name with
      | .ok place => place.follow names
      | .error fault => .error fault

/-- Follow a path. -/
def locate (here : Place) (path : String) : Except Fault Place :=
  if '\x00' ∈ path.toList then .error .nul
  else if path = "" then .error .missing
  else if maxPathBytes < path.utf8ByteSize then .error .tooLong
  else
    match path.splitOn "/" with
    | "" :: names => here.root.follow names
    | names => here.follow names

/-- Read all that lies at a path, and tell what is left of the input then. -/
def read (here : Place) (path : String) (input : ByteArray) : Except Fault ByteArray × ByteArray :=
  match here.locate path with
  | .error fault => (.error fault, input)
  | .ok place =>
      match place.node with
      | .file content => (.ok content, input)
      | .input => (.ok input, .empty)
      | .directory _ => (.error .directory, input)

end Place

end Typewriter.Disk

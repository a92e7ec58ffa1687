import Typewriter.Command.Basic
import Typewriter.Text.Split

/-!
# Command books

The usual handler looks a line up in a book of commands.  A line calls a command if it starts with
the delimiter, if any, and goes on with a name and a space; the rest is the argument.  Commands of
the book come before built-in ones of the same name, and earlier ones before later ones.
-/

namespace Typewriter

/-- The commands that lines may call, and how. -/
structure CommandBook where
  delimiter : Option String
  commands : List Command
  audible : Bool

namespace CommandBook

/-- The command of a name. -/
def find? (book : CommandBook) (name : String) : Option Command :=
  (book.commands ++ Command.builtins).find? fun command => command.name = name

/-- A line behind the delimiter. -/
def body? (book : CommandBook) (text : String) : Option (List Char) :=
  match book.delimiter with
  | some delimiter => delimiter.toList.isPrefixOf? text.toList
  | none => some text.toList

/-- The command that a line calls, and its argument. -/
def call? (book : CommandBook) (text : String) : Option (Command × String) :=
  match book.body? text with
  | none => none
  | some body =>
      match Text.splitFirst? ' ' body with
      | none => none
      | some (name, argument) =>
          match book.find? (String.ofList name) with
          | none => none
          | some command => some (command, String.ofList argument)

/-- The position behind so many cues, as far as positions go. -/
def advancePosition (position consumed : Nat) : Nat :=
  min (position + consumed) maxPosition

/-- Run the command that a line calls, if it calls one. -/
def reply (book : CommandBook) (query : Query) : Reply :=
  match book.call? query.text with
  | none => .pass query
  | some (command, argument) =>
      let reaction := command.run book.audible argument
      ⟨advancePosition query.position reaction.consumed, reaction.events⟩

/-- The handler that looks lines up in a book. -/
def handler (book : CommandBook) : Handler :=
  .ofFunction book.reply

end CommandBook

end Typewriter

import Mathlib.Data.List.Basic
import Typewriter.Setup

/-!
# Calls of commands

A line calls a command if it is made of the delimiter, the name of the command, a space, and the
argument.  `CommandBook.call?_eq_some_iff` says it without `Text.splitFirst?`.  A book without
commands of its own knows the alert alone, so its lines are either alerts or typed
(`CommandBook.reply_of_alertCall?_eq_some`, `CommandBook.reply_of_alertCall?_eq_none`).
-/

namespace Typewriter

/-- The argument of a line that calls the alert behind a delimiter. -/
def alertCall? (delimiter : Option String) (text : String) : Option String :=
  ((delimiter.getD "" ++ "alert ").toList.isPrefixOf? text.toList).map String.ofList

theorem alertCall?_eq_some_iff {delimiter : Option String} {text argument : String} :
    alertCall? delimiter text = some argument ↔
      text = delimiter.getD "" ++ "alert " ++ argument := by
  simp only [alertCall?, Option.map_eq_some_iff, List.isPrefixOf?_eq_some_iff_append_eq]
  constructor
  · rintro ⟨rest, hrest, rfl⟩
    rw [← String.toList_inj, String.toList_append, String.toList_ofList, hrest]
  · rintro rfl
    exact ⟨argument.toList, String.toList_append.symm, String.ofList_toList⟩

namespace CommandBook

variable {book : CommandBook} {text name argument : String} {command : Command}

theorem body?_eq_some_iff {body : List Char} :
    book.body? text = some body ↔ text = book.delimiter.getD "" ++ String.ofList body := by
  rw [← String.toList_inj, String.toList_append, String.toList_ofList]
  unfold body?
  cases book.delimiter with
  | none => simp
  | some delimiter =>
      dsimp only [Option.getD_some]
      rw [List.isPrefixOf?_eq_some_iff_append_eq, eq_comm]

/-- A line calls a command if it starts with the delimiter and goes on with the name, a space and
the argument. -/
theorem call?_eq_some_iff :
    book.call? text = some (command, argument) ↔
      ∃ name, text = book.delimiter.getD "" ++ (name ++ " " ++ argument) ∧ ' ' ∉ name.toList ∧
        book.find? name = some command := by
  constructor
  · intro hcall
    unfold call? at hcall
    split at hcall
    · contradiction
    · rename_i body hbody
      split at hcall
      · contradiction
      · rename_i name rest hsplit
        split at hcall
        · contradiction
        · rename_i found hfind
          obtain ⟨rfl, rfl⟩ : found = command ∧ String.ofList rest = argument := by
            simpa using hcall
          obtain ⟨hparts, hname⟩ := Text.splitFirst?_eq_some_iff.mp hsplit
          refine ⟨String.ofList name, ?_, by simpa using hname, hfind⟩
          rw [body?_eq_some_iff.mp hbody, hparts, String.ofList_append]
          simp [String.ofList_cons, String.append_assoc]
  · rintro ⟨name, htext, hname, hfind⟩
    have hbody : book.body? text = some (name.toList ++ ' ' :: argument.toList) := by
      rw [body?_eq_some_iff, htext, String.ofList_append]
      simp [String.ofList_cons, String.append_assoc]
    have hsplit : Text.splitFirst? ' ' (name.toList ++ ' ' :: argument.toList) =
        some (name.toList, argument.toList) :=
      Text.splitFirst?_eq_some_iff.mpr ⟨rfl, hname⟩
    unfold call?
    simp only [hbody, hsplit, String.ofList_toList, hfind]

/-! ## The command of a name -/

theorem find?_name_eq_some_iff {commands : List Command} :
    (commands.find? fun command => command.name = name) = some command ↔
      command.name = name ∧ ∃ earlier later, commands = earlier ++ command :: later ∧
        ∀ other ∈ earlier, other.name ≠ name := by
  simp only [List.find?_eq_some_iff_append, decide_eq_true_eq, Bool.not_eq_true',
    decide_eq_false_iff_not, ne_eq]

theorem find?_name_eq_none_iff {commands : List Command} :
    (commands.find? fun command => command.name = name) = none ↔
      ∀ other ∈ commands, other.name ≠ name := by
  simp only [List.find?_eq_none, decide_eq_true_eq, ne_eq]

theorem find?_builtins_eq_some_iff :
    (Command.builtins.find? fun command => command.name = name) = some command ↔
      name = "alert" ∧ command = .alert := by
  by_cases hname : name = "alert"
  · subst hname
    simp [Command.builtins, Command.alert, eq_comm]
  · simp [Command.builtins, Command.alert, hname, Ne.symm hname]

/-- The command of a name is its earliest entry, or the alert if there is no entry of that name. -/
theorem find?_eq_some_iff :
    book.find? name = some command ↔
      (command.name = name ∧ ∃ earlier later, book.commands = earlier ++ command :: later ∧
        ∀ other ∈ earlier, other.name ≠ name) ∨
      (∀ other ∈ book.commands, other.name ≠ name) ∧ name = "alert" ∧ command = .alert := by
  unfold find?
  rw [List.find?_append, Option.or_eq_some_iff, find?_name_eq_some_iff, find?_name_eq_none_iff,
    find?_builtins_eq_some_iff]

theorem find?_eq_none_iff :
    book.find? name = none ↔ name ≠ "alert" ∧ ∀ other ∈ book.commands, other.name ≠ name := by
  unfold find?
  rw [find?_name_eq_none_iff, List.forall_mem_append, and_comm]
  simp [Command.builtins, Command.alert, eq_comm]

/-! ## A book without commands of its own -/

theorem find?_eq_some_iff_of_nil (hcommands : book.commands = []) :
    book.find? name = some command ↔ name = "alert" ∧ command = .alert := by
  rw [find?_eq_some_iff, hcommands]
  simp

theorem call?_eq_some_iff_of_nil (hcommands : book.commands = []) :
    book.call? text = some (command, argument) ↔
      command = .alert ∧ alertCall? book.delimiter text = some argument := by
  have hspace : ' ' ∉ "alert".toList := by decide
  rw [call?_eq_some_iff, alertCall?_eq_some_iff]
  simp only [find?_eq_some_iff_of_nil hcommands]
  constructor
  · rintro ⟨name, htext, -, rfl, rfl⟩
    exact ⟨rfl, by rw [htext]; simp [String.append_assoc]⟩
  · rintro ⟨rfl, htext⟩
    exact ⟨"alert", by rw [htext]; simp [String.append_assoc], hspace, rfl, rfl⟩

/-- An alert takes up its own line. -/
theorem reply_of_alertCall?_eq_some {position : Nat} (hcommands : book.commands = [])
    (halert : alertCall? book.delimiter text = some argument) :
    book.reply ⟨text, position⟩ =
      ⟨advancePosition position 1, raiseAlert book.audible argument⟩ := by
  have hcall := (call?_eq_some_iff_of_nil hcommands).mpr ⟨rfl, halert⟩
  unfold reply
  rw [hcall]
  rfl

/-- A line that is no alert is left alone. -/
theorem reply_of_alertCall?_eq_none {position : Nat} (hcommands : book.commands = [])
    (halert : alertCall? book.delimiter text = none) :
    book.reply ⟨text, position⟩ = .pass ⟨text, position⟩ := by
  unfold reply
  cases hcall : book.call? text with
  | none => rfl
  | some called =>
      have hsome := ((call?_eq_some_iff_of_nil hcommands).mp hcall).2
      rw [halert] at hsome
      contradiction

end CommandBook

end Typewriter

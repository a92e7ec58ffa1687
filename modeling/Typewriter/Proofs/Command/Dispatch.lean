import Typewriter.Proofs.Command.Calls

/-!
# What a command book does with a line

`CommandBook.Calls` says which command of a book a line calls, without looking it up: the earliest
entry of the name, and a built-in command only if no entry has its name.  The look-up of the handler
finds just that command (`call?_eq_some_iff_calls`), and there is at most one (`Calls.unique`).

Commands may do nothing that is seen.  To tell that one ran, `CommandBook.reporting` has every
command of a book, also the built-in ones, report its runs; what the handler does with a line is
otherwise the same.  The main statement is `reply_of_line`.
-/

namespace Typewriter

/-- A command that reports each run with its argument before it acts. -/
def Command.reporting (command : Command) (report : String → List Event) : Command where
  name := command.name
  run audible argument :=
    let reaction := command.run audible argument
    ⟨report argument ++ reaction.events, reaction.consumed⟩

namespace CommandBook

/-- The book with all its commands reporting.  The built-in ones are entered behind the others. -/
def reporting (book : CommandBook) (report : Command → String → List Event) : CommandBook :=
  { book with
    commands := (book.commands ++ Command.builtins).map fun command =>
      command.reporting (report command) }

/-- The command that a line calls, and its argument. -/
inductive Calls (book : CommandBook) (text : String) : Command → String → Prop
  /-- The earliest entry of the name. -/
  | entered {earlier later : List Command} {command : Command} {argument : String}
      (htext : text = book.delimiter.getD "" ++ (command.name ++ " " ++ argument))
      (hname : ' ' ∉ command.name.toList)
      (hcommands : book.commands = earlier ++ command :: later)
      (hearliest : ∀ other ∈ earlier, other.name ≠ command.name) : Calls book text command argument
  /-- The alert, if no entry has its name. -/
  | builtin {argument : String}
      (htext : text = book.delimiter.getD "" ++ ("alert" ++ " " ++ argument))
      (hnone : ∀ other ∈ book.commands, other.name ≠ "alert") : Calls book text .alert argument

variable {book : CommandBook} {text name argument : String} {command : Command} {query : Query}
  {report : Command → String → List Event}

/-! ## The command of a line -/

/-- The handler looks up just the command that a line calls. -/
theorem call?_eq_some_iff_calls :
    book.call? text = some (command, argument) ↔ book.Calls text command argument := by
  rw [call?_eq_some_iff]
  constructor
  · rintro ⟨name, htext, hname, hfind⟩
    rcases find?_eq_some_iff.mp hfind with ⟨rfl, earlier, later, hcommands, hearliest⟩ |
      ⟨hnone, rfl, rfl⟩
    · exact .entered htext hname hcommands hearliest
    · exact .builtin htext hnone
  · intro hcalls
    cases hcalls with
    | @entered earlier later _ _ htext hname hcommands hearliest =>
        exact ⟨command.name, htext, hname,
          find?_eq_some_iff.mpr (.inl ⟨rfl, earlier, later, hcommands, hearliest⟩)⟩
    | builtin htext hnone =>
        exact ⟨"alert", htext, by decide, find?_eq_some_iff.mpr (.inr ⟨hnone, rfl, rfl⟩)⟩

/-- A line calls one command at most, with one argument. -/
theorem Calls.unique {other : Command} {rest : String} (hcalls : book.Calls text command argument)
    (hother : book.Calls text other rest) : other = command ∧ rest = argument := by
  have hpair := (call?_eq_some_iff_calls.mpr hother).symm.trans (call?_eq_some_iff_calls.mpr hcalls)
  rwa [Option.some.injEq, Prod.mk.injEq] at hpair

/-- A line calls a command just if the word behind the delimiter is a name, of an entry or of the
alert, and a space ends it. -/
theorem exists_calls_iff :
    (∃ command argument, book.Calls text command argument) ↔
      ∃ name argument, text = book.delimiter.getD "" ++ (name ++ " " ++ argument) ∧
        ' ' ∉ name.toList ∧ (name = "alert" ∨ ∃ command ∈ book.commands, command.name = name) := by
  simp only [← call?_eq_some_iff_calls, call?_eq_some_iff]
  constructor
  · rintro ⟨command, argument, name, htext, hname, hfind⟩
    refine ⟨name, argument, htext, hname, ?_⟩
    have hfound : book.find? name ≠ none := by rw [hfind]; exact Option.some_ne_none command
    rw [Ne, find?_eq_none_iff] at hfound
    by_contra hunknown
    rw [not_or, not_exists] at hunknown
    exact hfound ⟨hunknown.1, fun other hother hsame => hunknown.2 other ⟨hother, hsame⟩⟩
  · rintro ⟨name, argument, htext, hname, hknown⟩
    have hfound : book.find? name ≠ none := by
      rw [Ne, find?_eq_none_iff]
      rintro ⟨halert, hnone⟩
      rcases hknown with hname | ⟨other, hother, hsame⟩
      · exact halert hname
      · exact hnone other hother hsame
    obtain ⟨command, hfind⟩ := Option.ne_none_iff_exists'.mp hfound
    exact ⟨command, argument, name, htext, hname, hfind⟩

/-! ## What the handler does -/

theorem reply_of_calls (hcalls : book.Calls text command argument) (position : Nat) :
    book.reply ⟨text, position⟩ =
      ⟨min (position + (command.run book.audible argument).consumed) maxPosition,
        (command.run book.audible argument).events⟩ := by
  unfold reply
  rw [call?_eq_some_iff_calls.mpr hcalls]
  rfl

theorem reply_of_not_calls (hnone : ¬ ∃ command argument, book.Calls text command argument)
    (position : Nat) : book.reply ⟨text, position⟩ = .pass ⟨text, position⟩ := by
  unfold reply
  cases hcall : book.call? text with
  | none => rfl
  | some called => exact absurd ⟨_, _, call?_eq_some_iff_calls.mp hcall⟩ hnone

/-- What is done depends on the text alone, and how far the walk goes on does too. -/
theorem exists_reply_eq (book : CommandBook) (text : String) :
    ∃ consumed events, ∀ position ≤ maxPosition,
      book.reply ⟨text, position⟩ = ⟨min (position + consumed) maxPosition, events⟩ := by
  by_cases hcalls : ∃ command argument, book.Calls text command argument
  · obtain ⟨command, argument, hcalls⟩ := hcalls
    exact ⟨_, _, fun position _ => reply_of_calls hcalls position⟩
  · refine ⟨0, [], fun position hposition => ?_⟩
    rw [reply_of_not_calls hcalls, Nat.add_zero, Nat.min_eq_left hposition]
    rfl

theorem handler_of_empty_delimiter (book : CommandBook) :
    { book with delimiter := some "" }.handler = { book with delimiter := none }.handler := by
  have hbody (text : String) : { book with delimiter := some "" }.body? text =
      { book with delimiter := none }.body? text := rfl
  have hreply : { book with delimiter := some "" }.reply =
      { book with delimiter := none }.reply := by
    funext query
    unfold reply call?
    rw [hbody]
    rfl
  rw [handler, hreply, handler]

/-! ## Reported runs -/

theorem find?_reporting :
    (book.reporting report).find? name =
      (book.find? name).map fun command => command.reporting (report command) := by
  unfold find? reporting
  rw [List.find?_append, List.find?_map]
  have hnames : ((fun command : Command => decide (command.name = name)) ∘ fun command : Command =>
      command.reporting (report command)) = fun command => decide (command.name = name) := rfl
  rw [hnames]
  cases hfind : (book.commands ++ Command.builtins).find? fun command => command.name = name with
  | some command => rfl
  | none =>
      -- A name that the book does not know is not built in either.
      rw [List.find?_append, Option.or_eq_none_iff] at hfind
      rw [Option.map_none, Option.none_or, hfind.2]

theorem call?_reporting :
    (book.reporting report).call? text =
      (book.call? text).map fun call => (call.1.reporting (report call.1), call.2) := by
  have hbody : (book.reporting report).body? text = book.body? text := rfl
  unfold call?
  rw [hbody]
  cases book.body? text with
  | none => rfl
  | some body =>
      dsimp only
      cases Text.splitFirst? ' ' body with
      | none => rfl
      | some parts =>
          dsimp only
          rw [find?_reporting]
          cases book.find? (String.ofList parts.1) <;> rfl

/-- The command that a line calls reports one run, with its argument, and nothing else is
different. -/
theorem reply_reporting_of_calls (hcalls : book.Calls query.text command argument) :
    (book.reporting report).reply query =
      ⟨(book.reply query).next, report command argument ++ (book.reply query).events⟩ := by
  have hcall := call?_eq_some_iff_calls.mpr hcalls
  unfold reply
  rw [call?_reporting, hcall]
  rfl

theorem reply_reporting_of_not_calls
    (hnone : ¬ ∃ command argument, book.Calls query.text command argument) :
    (book.reporting report).reply query = .pass query := by
  have hcall : book.call? query.text = none := by
    rw [Option.eq_none_iff_forall_ne_some]
    exact fun called hcalled => hnone ⟨_, _, call?_eq_some_iff_calls.mp hcalled⟩
  unfold reply
  rw [call?_reporting, hcall]
  rfl

/-! ## The main statement -/

/-- A command runs just if the line is made of the delimiter, a name without spaces that is known,
a space and the argument.  Then one command runs, once: the earliest entry of that name, or the
alert if there is none, and the walk goes on as many cues further as it takes up, as far as
positions go.  Otherwise the line is left alone.  So the walk never turns back, and neither the
events nor the number of cues depend on the position or on what was asked before.  An empty
delimiter is none. -/
theorem reply_of_line (book : CommandBook) (asked : List Query) (query : Query)
    (hposition : query.position ≤ maxPosition) :
    ((∃ command argument, book.Calls query.text command argument) ↔
      ∃ name argument, query.text = book.delimiter.getD "" ++ (name ++ " " ++ argument) ∧
        ' ' ∉ name.toList ∧ (name = "alert" ∨ ∃ command ∈ book.commands, command.name = name)) ∧
    (∀ {command argument}, book.Calls query.text command argument →
      (∀ {other rest}, book.Calls query.text other rest → other = command ∧ rest = argument) ∧
      book.handler asked query =
        ⟨min (query.position + (command.run book.audible argument).consumed) maxPosition,
          (command.run book.audible argument).events⟩ ∧
      ∀ report, (book.reporting report).handler asked query =
        ⟨(book.handler asked query).next,
          report command argument ++ (book.handler asked query).events⟩) ∧
    ((¬ ∃ command argument, book.Calls query.text command argument) →
      book.handler asked query = .pass query ∧
        ∀ report, (book.reporting report).handler asked query = .pass query) ∧
    query.position ≤ (book.handler asked query).next ∧
    (∃ consumed events, ∀ earlier position, position ≤ maxPosition →
      book.handler earlier ⟨query.text, position⟩ =
        ⟨min (position + consumed) maxPosition, events⟩) ∧
    { book with delimiter := some "" }.handler = { book with delimiter := none }.handler := by
  obtain ⟨consumed, events, hreply⟩ := exists_reply_eq book query.text
  refine ⟨exists_calls_iff, fun hcalls => ⟨hcalls.unique, reply_of_calls hcalls query.position,
    fun report => reply_reporting_of_calls hcalls⟩, fun hnone =>
    ⟨reply_of_not_calls hnone query.position, fun report => reply_reporting_of_not_calls hnone⟩, ?_,
    ⟨consumed, events, fun _ => hreply⟩, handler_of_empty_delimiter book⟩
  have hnext : (book.handler asked query).next = min (query.position + consumed) maxPosition :=
    congrArg Reply.next (hreply query.position hposition)
  omega

/-- A book with two commands of one name, the first of which leads behind every script, and with
an entry in the place of the alert.  Its delimiter ends with a space. -/
def shadowingBook : CommandBook where
  delimiter := some "do "
  commands := [.announcing "shout" (.fixed maxPosition) none, .announcing "shout" (.fixed 1) none,
    .announcing "alert" .argumentLength none]
  audible := true

/-- The first entry runs, with all behind the space, and the position stays in range. -/
theorem reply_of_line_of_shadowed_name :
    (3 : Nat) ≤ maxPosition ∧
      shadowingBook.handler [] ⟨"do shout  it", 3⟩ = ⟨maxPosition, [.command "shout" " it"]⟩ ∧
      shadowingBook.handler [] ⟨"do alert it", 3⟩ = ⟨5, [.command "alert" "it"]⟩ ∧
      shadowingBook.handler [] ⟨"shout it", 3⟩ = ⟨3, []⟩ := by
  have hposition : (3 : Nat) ≤ maxPosition := by decide
  obtain ⟨-, hshout, -⟩ := reply_of_line shadowingBook [] ⟨"do shout  it", 3⟩ hposition
  obtain ⟨-, halert, -⟩ := reply_of_line shadowingBook [] ⟨"do alert it", 3⟩ hposition
  obtain ⟨hform, -, hnone, -⟩ := reply_of_line shadowingBook [] ⟨"shout it", 3⟩ hposition
  refine ⟨hposition, ?_, ?_, ?_⟩
  · have hcalls : shadowingBook.Calls "do shout  it"
        (.announcing "shout" (.fixed maxPosition) none) " it" :=
      .entered (by decide) (by decide)
        (show shadowingBook.commands = [] ++ _ :: _ from rfl) nofun
    exact (hshout hcalls).2.1
  · have hcalls : shadowingBook.Calls "do alert it"
        (.announcing "alert" .argumentLength none) "it" :=
      .entered (by decide) (by decide)
        (show shadowingBook.commands = [_, _] ++ _ :: _ from rfl) (by simp [Command.announcing])
    exact (halert hcalls).2.1
  · refine (hnone fun hcalls => ?_).1
    obtain ⟨name, argument, htext, -⟩ := hform.mp hcalls
    have hhead := congrArg (fun text => text.toList.head?) htext
    simp [shadowingBook] at hhead

end CommandBook

end Typewriter

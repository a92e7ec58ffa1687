import Typewriter.Proofs.Script.Lines

/-!
# Writing scripts

Every script without effects can be written down, as long as its pauses are whole milliseconds of
64 bits.  The layout is free: a `Row` is a line of a document with or without a cue, and has blanks
in front of its cue and behind it, perhaps a comment, and one of two line ends.  A line holds just
the cue that was written there (`Row.holds_trim_line`, `Row.isRemark_trim_line`), and `read_write`
says that a document is read back as the cues that were written.
-/

namespace Typewriter.Script

open Comment (IsRemark)
open Text (AllBlank Tight)

/-- A cue that can be written: a line, or a pause in whole milliseconds. -/
inductive Entry where
  | line (text : String)
  | pause (millis : UInt64)
deriving DecidableEq, Repr

/-- The cue that is meant. -/
def Entry.cue : Entry → Cue
  | .line text => .line text
  | .pause millis => .pause (.ofMillis millis)

/-- A character as it stands in a quotation. -/
def escape : Char → List Char
  | '"' => ['\\', '"']
  | '\\' => ['\\', '\\']
  | '\n' => ['\\', 'n']
  | c => [c]

/-- A cue as it is written. -/
def Entry.written : Entry → List Char
  | .line text => ['s', 'a', 'y', ' ', '"'] ++ text.toList.flatMap escape ++ ['"']
  | .pause millis => ['w', 'a', 'i', 't', ' '] ++ Nat.toDigits 10 millis.toNat ++ ['m', 's']

/-- Blanks within a line. -/
structure Space where
  blanks : List Char
  allBlank : AllBlank blanks
  feed_not_mem : '\n' ∉ blanks

/-- The end of a line behind its cue: nothing, or a comment. -/
structure Remark where
  text : List Char
  isRemark : IsRemark text
  feed_not_mem : '\n' ∉ text

/-- How a line ends. -/
inductive Ending where
  | feed
  | returnFeed
deriving DecidableEq, Repr

/-- What stands in front of the line feed that ends a line. -/
def Ending.blanks : Ending → List Char
  | .feed => []
  | .returnFeed => ['\r']

/-- A line of a document.  Without a cue it is blank or a comment. -/
structure Row where
  entry : Option Entry
  indent : Space
  trail : Space
  remark : Remark
  ending : Ending

namespace Row

/-- What the line holds besides its layout. -/
def written (row : Row) : List Char :=
  match row.entry with
  | some entry => entry.written
  | none => []

/-- The line up to its line feed. -/
def line (row : Row) : List Char :=
  row.indent.blanks ++ row.written ++ row.trail.blanks ++ row.remark.text ++ row.ending.blanks

end Row

/-- A document, line by line. -/
def write (rows : List Row) : String :=
  String.ofList (rows.flatMap fun row => row.line ++ ['\n'])

/-! ## Cues -/

theorem escape_of_ne {c : Char} (hquote : c ≠ '"') (hslash : c ≠ '\\') (hfeed : c ≠ '\n') :
    escape c = [c] := by
  unfold escape
  split
  · contradiction
  · contradiction
  · contradiction
  · rfl

/-- What is escaped denotes what was there before. -/
theorem denotes_flatMap_escape (text : List Char) :
    Quotation.Denotes (text.flatMap escape) text := by
  induction text with
  | nil => exact .nil
  | cons c text ih =>
      rw [List.flatMap_cons]
      by_cases hquote : c = '"'
      · subst hquote
        exact .escaped (by decide) (by decide) ih
      by_cases hslash : c = '\\'
      · subst hslash
        exact .escaped (by decide) (by decide) ih
      by_cases hfeed : c = '\n'
      · subst hfeed
        exact .feed ih
      rw [escape_of_ne hquote hslash hfeed]
      exact .plain hquote hslash ih

theorem feed_not_mem_escape (c : Char) : '\n' ∉ escape c := by
  unfold escape
  split
  · decide
  · decide
  · decide
  · rename_i hfeed
    exact fun hmem => hfeed (List.mem_singleton.mp hmem).symm

theorem Entry.isCode_written (entry : Entry) : IsCode entry.written entry.cue := by
  cases entry with
  | line text =>
      exact ⟨_, [], _, .line (denotes_flatMap_escape text.toList), AllBlank.nil, rfl⟩
  | pause millis =>
      exact ⟨_, [], _, .pause (Duration.denotes_ofMillis millis), AllBlank.nil, rfl⟩

theorem Entry.feed_not_mem_written (entry : Entry) : '\n' ∉ entry.written := by
  cases entry with
  | line text =>
      simp only [written, List.mem_append, List.mem_flatMap, not_or]
      refine ⟨⟨by decide, ?_⟩, by decide⟩
      rintro ⟨c, -, hmem⟩
      exact feed_not_mem_escape c hmem
  | pause millis =>
      simp only [written, List.mem_append, not_or]
      refine ⟨⟨by decide, fun hmem => ?_⟩, by decide⟩
      exact absurd (Nat.isDigit_of_mem_toDigits (by decide) (by decide) hmem) (by decide)

/-! ## Lines -/

theorem Ending.allBlank (ending : Ending) : AllBlank ending.blanks := by
  cases ending <;> decide

/-- A comment may end with blanks, which trimming takes off. -/
theorem Remark.exists_tight (remark : Remark) :
    ∃ text blanks, IsRemark text ∧ Tight text ∧ AllBlank blanks ∧
      remark.text = text ++ blanks := by
  rcases remark.isRemark with hnil | ⟨comment, hcomment⟩
  · exact ⟨[], [], .inl rfl, Text.tight_of_all (by decide), AllBlank.nil, hnil⟩
  · have hhead : ∀ c, remark.text.head? = some c → Text.isBlank c = false := by
      intro c hc
      rw [hcomment] at hc
      rw [← Option.some.inj hc]
      rfl
    obtain ⟨blanks, hblanks, htext⟩ := Text.exists_blanks_of_head hhead
    refine ⟨_, blanks, ?_, Text.tight_trim _, hblanks, htext⟩
    cases htrim : Text.trim remark.text with
    | nil => exact .inl rfl
    | cons c rest =>
        rw [htrim, hcomment] at htext
        exact .inr ⟨rest, by rw [(List.cons.inj htext).1]⟩

namespace Row

theorem feed_not_mem_written (row : Row) : '\n' ∉ row.written := by
  unfold written
  split
  · exact Entry.feed_not_mem_written _
  · exact List.not_mem_nil

theorem feed_not_mem_line (row : Row) : '\n' ∉ row.line := by
  have hending : '\n' ∉ row.ending.blanks := by cases row.ending <;> decide
  simp only [line, List.mem_append, not_or]
  exact ⟨⟨⟨⟨row.indent.feed_not_mem, row.feed_not_mem_written⟩, row.trail.feed_not_mem⟩,
    row.remark.feed_not_mem⟩, hending⟩

/-- A line without a cue is blank or a comment. -/
theorem isRemark_trim_line {row : Row} (hentry : row.entry = none) :
    IsRemark (Text.trim row.line) := by
  obtain ⟨text, blanks, hremark, htight, hblanks, htext⟩ := row.remark.exists_tight
  have hwritten : row.written = [] := by rw [written, hentry]
  have hline : row.line =
      row.indent.blanks ++ row.trail.blanks ++ text ++ (blanks ++ row.ending.blanks) := by
    rw [line, hwritten, htext]
    simp only [List.append_nil, List.append_assoc]
  rw [hline, Text.trim_between_blanks (row.indent.allBlank.append row.trail.allBlank)
    (hblanks.append row.ending.allBlank) htight]
  exact hremark

/-- A line with a cue holds it. -/
theorem holds_trim_line {row : Row} {entry : Entry} (hentry : row.entry = some entry) :
    Holds (Text.trim row.line) entry.cue := by
  obtain ⟨text, blanks, hremark, htight, hblanks, htext⟩ := row.remark.exists_tight
  have hcode := entry.isCode_written
  have hwritten : row.written = entry.written := by rw [written, hentry]
  have htail := hblanks.append row.ending.allBlank
  by_cases hnil : text = []
  · -- Without a comment, the blanks behind the cue are at the end of the line.
    have hline : row.line = row.indent.blanks ++ entry.written ++
        (row.trail.blanks ++ (blanks ++ row.ending.blanks)) := by
      rw [line, hwritten, htext, hnil]
      simp only [List.nil_append, List.append_assoc]
    rw [hline, Text.trim_between_blanks row.indent.allBlank (row.trail.allBlank.append htail)
      hcode.tight]
    exact ⟨_, [], [], hcode, AllBlank.nil, .inl rfl, by simp⟩
  · have hline : row.line = row.indent.blanks ++ (entry.written ++ row.trail.blanks ++ text) ++
        (blanks ++ row.ending.blanks) := by
      rw [line, hwritten, htext]
      simp only [List.append_assoc]
    have hcore := hcode.tight.around htight hcode.ne_nil hnil row.trail.blanks
    rw [hline, Text.trim_between_blanks row.indent.allBlank htail hcore]
    exact ⟨_, row.trail.blanks, text, hcode, row.trail.allBlank, hremark, rfl⟩

end Row

/-! ## Documents -/

theorem lines_write (rows : List Row) :
    Text.lines '\n' (write rows).toList = rows.map Row.line := by
  rw [write, String.toList_ofList]
  induction rows with
  | nil => rfl
  | cons row rows ih =>
      rw [List.flatMap_cons, List.append_assoc, List.singleton_append,
        Text.lines_append_feed row.feed_not_mem_line, ih, List.map_cons]

theorem readLines_rows (rows : List Row) (number : Nat) :
    readLines number (rows.map Row.line) = .ok ((rows.filterMap Row.entry).map Entry.cue) := by
  induction rows generalizing number with
  | nil => rfl
  | cons row rows ih =>
      rw [List.map_cons]
      cases hentry : row.entry with
      | none =>
          rw [List.filterMap_cons_none hentry,
            readLines_cons_of_isRemark (Row.isRemark_trim_line hentry)]
          exact ih (number + 1)
      | some entry =>
          rw [List.filterMap_cons_some hentry, List.map_cons]
          exact readLines_cons_of_holds (Row.holds_trim_line hentry) (ih (number + 1))

/-- A document is read back as the cues that were written, whatever its layout. -/
theorem read_write (rows : List Row) :
    read (write rows) = .ok ((rows.filterMap Row.entry).map Entry.cue) := by
  rw [read, lines_write]
  exact readLines_rows rows 1

end Typewriter.Script

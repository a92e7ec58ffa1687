import Typewriter.Proofs.Attempt
import Typewriter.Proofs.Script.Lines

/-!
# Documents in parts

A document that is cut behind a line feed is read part by part: `read_append_eq` says that the cues
of the parts follow one another, and that a fault is that of the first part that has one.  Only the
number of its line counts the lines of the parts before it.  Cut into single lines, a document is
read line by line (`read_eq_ok_iff`), and its fault is that of the first line that has one
(`read_eq_error_iff`).

The main statement is `read_append`.
-/

namespace Typewriter

namespace Text

variable {feed : Char} {cs : List Char}

theorem lines_cons_of_ne {c : Char} (hc : c ≠ feed) {line : List Char} {rest : List (List Char)}
    (hlines : lines feed cs = line :: rest) : lines feed (c :: cs) = (c :: line) :: rest := by
  rw [lines, if_neg hc, hlines]

/-- A line feed ends as many lines as there are line feeds. -/
theorem length_lines_concat_feed (cs : List Char) :
    (lines feed (cs ++ [feed])).length = (cs ++ [feed]).count feed := by
  induction cs with
  | nil => simp [lines]
  | cons c cs ih =>
      rw [List.cons_append]
      by_cases hc : c = feed
      · rw [lines, if_pos hc, hc, List.length_cons, ih, List.count_cons_self]
      · rw [List.count_cons_of_ne hc, ← ih]
        cases hlines : lines feed (cs ++ [feed]) with
        | nil => simp [hlines] at ih
        | cons line rest => rw [lines_cons_of_ne hc hlines, List.length_cons, List.length_cons]

/-- Behind a line feed, the lines are those of what follows. -/
theorem lines_concat_feed_append (cs rest : List Char) :
    lines feed (cs ++ [feed] ++ rest) = lines feed (cs ++ [feed]) ++ lines feed rest := by
  induction cs with
  | nil => simp [lines]
  | cons c cs ih =>
      rw [List.cons_append, List.cons_append]
      by_cases hc : c = feed
      · rw [lines, if_pos hc, lines, if_pos hc, ih, List.cons_append]
      · cases hlines : lines feed (cs ++ [feed]) with
        | nil =>
            have hlength : (lines feed (cs ++ [feed])).length = _ := length_lines_concat_feed cs
            simp [hlines] at hlength
        | cons line more =>
            rw [hlines, List.cons_append] at ih
            rw [lines_cons_of_ne hc hlines, lines_cons_of_ne hc ih, List.cons_append]

theorem feed_not_mem_of_mem_lines {line : List Char} (hline : line ∈ lines feed cs) :
    feed ∉ line := by
  induction cs generalizing line with
  | nil => simp [lines] at hline
  | cons c cs ih =>
      by_cases hc : c = feed
      · rw [lines, if_pos hc, List.mem_cons] at hline
        rcases hline with rfl | hline
        · exact List.not_mem_nil
        · exact ih hline
      · have hne : feed ≠ c := fun heq => hc heq.symm
        cases hlines : lines feed cs with
        | nil =>
            rw [lines, if_neg hc, hlines, List.mem_singleton] at hline
            rw [hline, List.mem_singleton]
            exact hne
        | cons first rest =>
            rw [lines_cons_of_ne hc hlines, List.mem_cons] at hline
            rcases hline with rfl | hline
            · have hfirst : feed ∉ first := ih (hlines ▸ List.mem_cons_self)
              rw [List.mem_cons, not_or]
              exact ⟨hne, hfirst⟩
            · exact ih (hlines ▸ List.mem_cons_of_mem first hline)

end Text

namespace Script

/-- The fault of the same line behind so many others. -/
def SourceFault.behind (lines : Nat) (fault : SourceFault) : SourceFault :=
  { fault with number := fault.number + lines }

variable {lines : List (List Char)} {script : Script} {fault : SourceFault}

/-! ## Lines behind others -/

/-- If what stands behind other lines is all that has a fault, it has the same fault alone. -/
theorem exists_of_behind_error {attempt : Except SourceFault Script} {before : Script} {count : Nat}
    (hattempt : (do
      let after ← attempt.mapError (SourceFault.behind count)
      return before ++ after) = .error fault) :
    ∃ late, attempt = .error late ∧ fault = late.behind count := by
  cases attempt with
  | error late => exact ⟨late, rfl, (Except.error.inj hattempt).symm⟩
  | ok cues => contradiction

theorem SourceFault.behind_behind (fault : SourceFault) (few more : Nat) :
    (fault.behind few).behind more = fault.behind (few + more) := by
  unfold behind
  rw [Nat.add_assoc]

/-- Lines are read alike wherever they stand, but for the number in a fault. -/
theorem readLines_add (number count : Nat) (lines : List (List Char)) :
    readLines (number + count) lines =
      (readLines number lines).mapError (SourceFault.behind count) := by
  induction lines generalizing number with
  | nil => rfl
  | cons line rest ih =>
      have hnumber : number + count + 1 = number + 1 + count := Nat.add_right_comm number count 1
      rw [readLines, readLines, hnumber]
      cases code? line with
      | none => exact ih (number + 1)
      | some code =>
          dsimp only
          cases readCue code with
          | error cause => rfl
          | ok cue =>
              dsimp only
              rw [ih]
              cases readLines (number + 1) rest with
              | error fault => rfl
              | ok cues => rfl

/-- Lines are read one part after the other. -/
theorem readLines_append (number : Nat) (front lines : List (List Char)) :
    readLines number (front ++ lines) = do
      let before ← readLines number front
      let after ← readLines (number + front.length) lines
      return before ++ after := by
  induction front generalizing number with
  | nil =>
      rw [List.nil_append, List.length_nil, Nat.add_zero, readLines]
      cases readLines number lines with
      | error fault => rfl
      | ok cues => rfl
  | cons line rest ih =>
      have hnumber : number + (line :: rest).length = number + 1 + rest.length := by
        rw [List.length_cons]
        omega
      rw [List.cons_append, readLines, readLines, hnumber]
      cases code? line with
      | none => exact ih (number + 1)
      | some code =>
          dsimp only
          cases readCue code with
          | error cause => rfl
          | ok cue =>
              dsimp only
              rw [ih]
              cases readLines (number + 1) rest with
              | error fault => rfl
              | ok before =>
                  cases readLines (number + 1 + rest.length) lines with
                  | error fault => rfl
                  | ok after => rfl

/-- A document is read one part after the other, if the first ends with a line feed. -/
theorem read_append_eq {front : String} (hfront : front = "" ∨ ∃ text, front = text ++ "\n")
    (rest : String) :
    read (front ++ rest) = do
      let before ← read front
      let after ← (read rest).mapError (SourceFault.behind (front.toList.count '\n'))
      return before ++ after := by
  have hlines : Text.lines '\n' (front ++ rest).toList =
        Text.lines '\n' front.toList ++ Text.lines '\n' rest.toList ∧
      (Text.lines '\n' front.toList).length = front.toList.count '\n' := by
    rcases hfront with rfl | ⟨text, rfl⟩
    · exact ⟨by rw [String.empty_append]; rfl, rfl⟩
    · have htext : (text ++ "\n").toList = text.toList ++ ['\n'] := String.toList_append
      rw [String.toList_append, htext]
      exact ⟨Text.lines_concat_feed_append _ _, Text.length_lines_concat_feed _⟩
  unfold read
  rw [hlines.1, readLines_append, hlines.2, readLines_add]

/-! ## Line by line -/

/-- A line of a document is a document of its own. -/
theorem read_ofList {line : List Char} (hfeed : '\n' ∉ line) :
    read (String.ofList line) = readLines 1 [line] := by
  rw [read, String.toList_ofList]
  cases line with
  | nil => rfl
  | cons c cs => rw [Text.lines_of_not_mem hfeed (List.cons_ne_nil c cs)]

theorem readLines_cons (line : List Char) (rest : List (List Char)) :
    readLines 1 (line :: rest) = do
      let before ← readLines 1 [line]
      let after ← (readLines 1 rest).mapError (SourceFault.behind 1)
      return before ++ after := by
  have happend := readLines_append 1 [line] rest
  rwa [List.singleton_append, List.length_singleton, readLines_add] at happend

/-- Lines are read if each of them can be read, and give what they give one by one. -/
theorem readLines_eq_ok_iff (hfeed : ∀ line ∈ lines, '\n' ∉ line) :
    readLines 1 lines = .ok script ↔
      ∃ parts, List.Forall₂ (fun line part => read (String.ofList line) = .ok part) lines parts ∧
        script = parts.flatten := by
  induction lines generalizing script with
  | nil =>
      rw [readLines, Except.ok.injEq]
      constructor
      · rintro rfl
        exact ⟨[], .nil, rfl⟩
      · rintro ⟨parts, hparts, rfl⟩
        cases hparts
        rfl
  | cons line rest ih =>
      have hrest (other : List Char) (hother : other ∈ rest) : '\n' ∉ other :=
        hfeed other (List.mem_cons_of_mem line hother)
      rw [readLines_cons, ← read_ofList (hfeed line List.mem_cons_self)]
      constructor
      · intro hread
        obtain ⟨part, hpart, hmore⟩ := bind_eq_ok hread
        obtain ⟨cues, hcues, hdone⟩ := bind_eq_ok hmore
        obtain ⟨parts, hparts, rfl⟩ := (ih hrest).mp (eq_ok_of_mapError hcues)
        exact ⟨part :: parts, .cons hpart hparts, (Except.ok.inj hdone).symm⟩
      · rintro ⟨parts, hparts, rfl⟩
        cases hparts with
        | cons hpart hparts =>
            rw [hpart, (ih hrest).mpr ⟨_, hparts, rfl⟩]
            rfl

/-- Lines are not read if one of them cannot be read, and the first such line gives the fault. -/
theorem readLines_eq_error_iff (hfeed : ∀ line ∈ lines, '\n' ∉ line) :
    readLines 1 lines = .error fault ↔
      ∃ before line after first, lines = before ++ line :: after ∧
        (∀ earlier ∈ before, ∃ part, read (String.ofList earlier) = .ok part) ∧
        read (String.ofList line) = .error first ∧ fault = first.behind before.length := by
  induction lines generalizing fault with
  | nil =>
      constructor
      · intro hread
        contradiction
      · rintro ⟨before, line, after, first, hlines, -⟩
        simp at hlines
  | cons line rest ih =>
      have hrest (other : List Char) (hother : other ∈ rest) : '\n' ∉ other :=
        hfeed other (List.mem_cons_of_mem line hother)
      rw [readLines_cons, ← read_ofList (hfeed line List.mem_cons_self)]
      cases hline : read (String.ofList line) with
      | error first =>
          constructor
          · intro hread
            exact ⟨[], line, rest, first, rfl, by simp, hline, (Except.error.inj hread).symm⟩
          · rintro ⟨before, other, after, second, hlines, hgood, hother, rfl⟩
            cases before with
            | nil =>
                obtain ⟨rfl, -⟩ := List.cons.inj hlines
                obtain rfl := Except.error.inj (hline.symm.trans hother)
                rfl
            | cons earlier before =>
                -- The first line would be one of those that can be read.
                obtain ⟨rfl, -⟩ := List.cons.inj hlines
                obtain ⟨part, hpart⟩ := hgood line List.mem_cons_self
                rw [hline] at hpart
                contradiction
      | ok part =>
          constructor
          · intro hread
            obtain ⟨late, hlate, rfl⟩ := exists_of_behind_error hread
            obtain ⟨before, other, after, first, rfl, hgood, hother, rfl⟩ := (ih hrest).mp hlate
            refine ⟨line :: before, other, after, first, rfl, ?_, hother, ?_⟩
            · intro earlier hearlier
              rcases List.mem_cons.mp hearlier with rfl | hearlier
              · exact ⟨part, hline⟩
              · exact hgood earlier hearlier
            · rw [SourceFault.behind_behind, List.length_cons]
          · rintro ⟨before, other, after, first, hlines, hgood, hother, rfl⟩
            cases before with
            | nil =>
                obtain ⟨rfl, -⟩ := List.cons.inj hlines
                rw [hline] at hother
                contradiction
            | cons earlier before =>
                obtain ⟨rfl, htail⟩ := List.cons.inj hlines
                have hlate := (ih hrest).mpr ⟨before, other, after, first, htail,
                  fun l hl => hgood l (List.mem_cons_of_mem _ hl), hother, rfl⟩
                rw [hlate, List.length_cons, ← SourceFault.behind_behind]
                rfl

/-- A document is a script if each of its lines is one, and holds their cues in their order. -/
theorem read_eq_ok_iff {source : String} :
    read source = .ok script ↔
      ∃ parts, List.Forall₂ (fun line part => read (String.ofList line) = .ok part)
        (Text.lines '\n' source.toList) parts ∧ script = parts.flatten :=
  readLines_eq_ok_iff fun _ => Text.feed_not_mem_of_mem_lines

theorem number_of_read_ofList {line : List Char} (hfeed : '\n' ∉ line)
    (hread : read (String.ofList line) = .error fault) : fault.number = 1 := by
  rw [read_ofList hfeed] at hread
  unfold readLines at hread
  split at hread
  · contradiction
  · split at hread
    · rw [← Except.error.inj hread]
    · contradiction

/-- A document is no script if one of its lines is none, and its fault tells which is the first. -/
theorem read_eq_error_iff {source : String} :
    read source = .error fault ↔
      ∃ before line after first, Text.lines '\n' source.toList = before ++ line :: after ∧
        (∀ earlier ∈ before, ∃ part, read (String.ofList earlier) = .ok part) ∧
        read (String.ofList line) = .error first ∧
        fault = { first with number := before.length + 1 } := by
  have hfeed (line : List Char) (hline : line ∈ Text.lines '\n' source.toList) : '\n' ∉ line :=
    Text.feed_not_mem_of_mem_lines hline
  have hbehind {before after : List (List Char)} {line : List Char} {first : SourceFault}
      (hlines : Text.lines '\n' source.toList = before ++ line :: after)
      (hread : read (String.ofList line) = .error first) :
      first.behind before.length = { first with number := before.length + 1 } := by
    have hline : line ∈ Text.lines '\n' source.toList := by
      rw [hlines]
      exact List.mem_append_right before List.mem_cons_self
    rw [SourceFault.behind, number_of_read_ofList (hfeed line hline) hread, Nat.add_comm]
  rw [read, readLines_eq_error_iff hfeed]
  constructor
  · rintro ⟨before, line, after, first, hlines, hgood, hread, rfl⟩
    exact ⟨before, line, after, first, hlines, hgood, hread, hbehind hlines hread⟩
  · rintro ⟨before, line, after, first, hlines, hgood, hread, rfl⟩
    exact ⟨before, line, after, first, hlines, hgood, hread, (hbehind hlines hread).symm⟩

/-- A document that is cut behind a line feed is read part by part.  A fault of the first part is
its fault; if the first part is a script, its cues stand before those of the second, and a fault of
the second part is its fault, except that the line feeds of the first part are added to its number.
So a fault is always that of the first line that has one alone, whose number counts all lines up to
it, and the cues of a script are those of its lines in their order. -/
theorem read_append {front : String} (hfront : front = "" ∨ ∃ text, front = text ++ "\n")
    (rest : String) :
    (∀ fault, read front = .error fault → read (front ++ rest) = .error fault) ∧
      (∀ script, read front = .ok script →
        (∀ more, read rest = .ok more → read (front ++ rest) = .ok (script ++ more)) ∧
          ∀ fault, read rest = .error fault → ∃ later, read (front ++ rest) = .error later ∧
            later = { fault with number := fault.number + front.toList.count '\n' } ∧
            later.chain = ("Failed to parse line " ++
                toString (fault.number + front.toList.count '\n') ++ ": " ++ fault.code) ::
              fault.chain.tail) ∧
      (∀ source fault, read source = .error fault ↔
        ∃ before line after first, Text.lines '\n' source.toList = before ++ line :: after ∧
          (∀ earlier ∈ before, ∃ part, read (String.ofList earlier) = .ok part) ∧
          read (String.ofList line) = .error first ∧
          fault = { first with number := before.length + 1 }) ∧
      ∀ source script, read source = .ok script ↔
        ∃ parts, List.Forall₂ (fun line part => read (String.ofList line) = .ok part)
          (Text.lines '\n' source.toList) parts ∧ script = parts.flatten := by
  have hread := read_append_eq hfront rest
  refine ⟨?_, ?_, fun source fault => read_eq_error_iff, fun source script => read_eq_ok_iff⟩
  · intro fault hfault
    rw [hread, hfault]
    rfl
  · intro script hscript
    constructor
    · intro more hmore
      rw [hread, hscript, hmore]
      rfl
    · intro fault hfault
      refine ⟨fault.behind (front.toList.count '\n'), ?_, rfl, rfl⟩
      rw [hread, hscript, hfault]
      rfl

/-- Behind a comment and a line that ends with a carriage return, the second line of the second part
is the fourth of the document. -/
theorem read_append_of_unknown_keyword :
    ∃ front rest : String, (front = "" ∨ ∃ text, front = text ++ "\n") ∧
      read front = .ok [.line "a"] ∧ (∃ fault, read rest = .error fault ∧ fault.number = 2) ∧
      ∃ later, read (front ++ rest) = .error later ∧ later.number = 4 ∧
        later.chain = ["Failed to parse line 4: sing \"b\"", "Unknown keyword: sing"] := by
  have hfront : "# one\nsay \"a\"\r\n" = "" ∨ ∃ text, "# one\nsay \"a\"\r\n" = text ++ "\n" :=
    .inr ⟨"# one\nsay \"a\"\r", rfl⟩
  have hscript : read "# one\nsay \"a\"\r\n" = .ok [.line "a"] := by rfl
  have hfault : read "\nsing \"b\"" = .error ⟨2, "sing \"b\"", .keyword "sing"⟩ := by rfl
  obtain ⟨later, hlater, hnumber, hchain⟩ :=
    ((read_append hfront "\nsing \"b\"").2.1 _ hscript).2 _ hfault
  exact ⟨_, _, hfront, hscript, ⟨_, hfault, rfl⟩, later, hlater, by rw [hnumber]; rfl, hchain⟩

end Script

end Typewriter

import Typewriter.Script.Source

/-!
# What a source says

The texts that a script has typed or put to a handler stand in its source, one on each `say` line.
`filterMap_text?_of_read` says that reading loses none of them and keeps their order, and
`length_le_of_read` that a script is no longer than its source.
-/

namespace Typewriter

theorem Text.length_lines_le {α : Type} [DecidableEq α] (feed : α) (cs : List α) :
    (lines feed cs).length ≤ cs.length := by
  induction cs with
  | nil => exact Nat.le_refl 0
  | cons c cs ih =>
      unfold lines
      split
      · simpa using ih
      · split
        · simp
        · rename_i line rest hlines
          rw [hlines] at ih
          simp only [List.length_cons] at ih ⊢
          omega

namespace Script

/-- The text of a line of a source that says one. -/
def said? (line : List Char) : Option String :=
  (code? line).bind fun code => (readCue code).toOption.bind Cue.text?

/-- All that a source says, from its first line to its last. -/
def sayings (source : String) : List String :=
  (Text.lines '\n' source.toList).filterMap said?

variable {script : Script} {lines : List (List Char)} {number : Nat}

theorem said?_of_code?_eq_none {line : List Char} (hcode : code? line = none) :
    said? line = none := by
  rw [said?, hcode]
  rfl

theorem said?_of_readCue {line code : List Char} {cue : Cue} (hcode : code? line = some code)
    (hcue : readCue code = .ok cue) : said? line = cue.text? := by
  rw [said?, hcode, Option.bind_some, hcue]
  rfl

theorem filterMap_text?_of_readLines (hread : readLines number lines = .ok script) :
    script.filterMap Cue.text? = lines.filterMap said? := by
  fun_induction readLines number lines generalizing script with
  | case1 =>
      rw [← Except.ok.inj hread]
      rfl
  | case2 number line rest hcode ih =>
      rw [List.filterMap_cons_none (said?_of_code?_eq_none hcode)]
      exact ih hread
  | case3 => contradiction
  | case4 => contradiction
  | case5 number line rest code hcode cue hcue cues hrest ih =>
      rw [← Except.ok.inj hread, List.filterMap_cons, List.filterMap_cons,
        said?_of_readCue hcode hcue, ih hrest]

/-- Nothing that a source says is lost, and nothing is added. -/
theorem filterMap_text?_of_read {source : String} (hread : read source = .ok script) :
    script.filterMap Cue.text? = sayings source :=
  filterMap_text?_of_readLines hread

theorem length_le_of_readLines (hread : readLines number lines = .ok script) :
    script.length ≤ lines.length := by
  fun_induction readLines number lines generalizing script with
  | case1 =>
      rw [← Except.ok.inj hread]
      exact Nat.le_refl 0
  | case2 number line rest hcode ih => exact Nat.le_succ_of_le (ih hread)
  | case3 => contradiction
  | case4 => contradiction
  | case5 number line rest code hcode cue hcue cues hrest ih =>
      rw [← Except.ok.inj hread]
      exact Nat.succ_le_succ (ih hrest)

theorem length_le_of_read {source : String} (hread : read source = .ok script) :
    script.length ≤ source.length := by
  rw [← String.length_toList]
  exact Nat.le_trans (length_le_of_readLines hread) (Text.length_lines_le _ _)

end Script

end Typewriter

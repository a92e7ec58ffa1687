import Typewriter.Proofs.Duration.Literals
import Typewriter.Proofs.Script.Quotations
import Typewriter.Script.Source

/-!
# What a line of a script holds

`Holds` is the grammar of the lines that hold a cue: a keyword, a space, an argument between blanks,
and perhaps a comment.  A line is read by cutting its comment off, trimming what is left, and
reading a keyword at its start.  `holds_iff` says that this accepts just the grammar, and
`read_line_iff` says it of a source of one line.
-/

namespace Typewriter

namespace Text

variable {feed : Char} {cs : List Char}

theorem lines_append_feed (hfeed : feed ∉ cs) (rest : List Char) :
    lines feed (cs ++ feed :: rest) = cs :: lines feed rest := by
  induction cs with
  | nil => rw [List.nil_append, lines, if_pos rfl]
  | cons c cs ih =>
      have hc : c ≠ feed := fun h => hfeed (h ▸ List.mem_cons_self)
      rw [List.cons_append, lines, if_neg hc, ih fun h => hfeed (List.mem_cons_of_mem c h)]

theorem lines_of_not_mem (hfeed : feed ∉ cs) (hne : cs ≠ []) : lines feed cs = [cs] := by
  induction cs with
  | nil => contradiction
  | cons c cs ih =>
      have hc : c ≠ feed := fun h => hfeed (h ▸ List.mem_cons_self)
      rw [lines, if_neg hc]
      cases cs with
      | nil => rfl
      | cons d cs => rw [ih (fun h => hfeed (List.mem_cons_of_mem c h)) (List.cons_ne_nil d cs)]

end Text

namespace Script

open Comment (IsRemark IsPlain)
open Text (AllBlank Tight)

/-- A keyword, its argument, and the cue that they stand for. -/
inductive Written : List Char → List Char → Cue → Prop
  | line {body : List Char} {text : String} (hbody : Quotation.Denotes body text.toList) :
      Written ['s', 'a', 'y'] ('"' :: (body ++ ['"'])) (.line text)
  | pause {argument : List Char} {length : Duration}
      (hargument : Duration.Denotes argument length) :
      Written ['w', 'a', 'i', 't'] argument (.pause length)

/-- A line without its comment, and the cue that it stands for. -/
def IsCode (code : List Char) (cue : Cue) : Prop :=
  ∃ keyword blanks argument, Written keyword argument cue ∧ AllBlank blanks ∧
    code = keyword ++ ' ' :: (blanks ++ argument)

/-- A trimmed line and the cue that it holds. -/
def Holds (text : List Char) (cue : Cue) : Prop :=
  ∃ code blanks remark, IsCode code cue ∧ AllBlank blanks ∧ IsRemark remark ∧
    text = code ++ blanks ++ remark

variable {keyword argument code text : List Char} {cue : Cue}

/-! ## Keywords and arguments -/

theorem Written.keyword_eq (hwritten : Written keyword argument cue) :
    keyword = ['s', 'a', 'y'] ∨ keyword = ['w', 'a', 'i', 't'] := by
  cases hwritten with
  | line => exact .inl rfl
  | pause => exact .inr rfl

theorem Written.tight (hwritten : Written keyword argument cue) : Tight argument := by
  cases hwritten with
  | line => exact Quotation.tight_quoted _
  | pause hargument => exact hargument.tight

theorem Written.argument_ne_nil (hwritten : Written keyword argument cue) : argument ≠ [] := by
  cases hwritten with
  | line => exact List.cons_ne_nil _ _
  | pause hargument => exact hargument.ne_nil

theorem isPlain_of_isLiteralChar {c : Char} (hc : Decimal.IsLiteralChar c) : IsPlain c := by
  have hnumber := hc.toNat
  refine ⟨?_, ?_, ?_⟩ <;> rintro rfl <;> revert hnumber <;> decide

theorem isPlain_of_mem_written {length : Duration} (hwritten : Duration.Denotes argument length)
    {c : Char} (hc : c ∈ argument) : IsPlain c := by
  rcases hwritten.mem hc with hliteral | hblank | hunit
  · exact isPlain_of_isLiteralChar hliteral
  · exact Comment.isPlain_of_isBlank hblank
  · simp only [List.mem_cons, List.not_mem_nil, or_false] at hunit
    rcases hunit with rfl | rfl <;> decide

/-- The scanner of comments passes over an argument. -/
theorem Written.code_append (hwritten : Written keyword argument cue) (rest : List Char) :
    Comment.code false (argument ++ rest) = argument ++ Comment.code false rest := by
  cases hwritten with
  | line hbody => exact Comment.code_quotation hbody rest
  | pause hargument =>
      exact Comment.code_append_of_isPlain (fun c => isPlain_of_mem_written hargument) rest

theorem readArgument_eq_ok_iff :
    readArgument keyword argument = .ok cue ↔ Written keyword (Text.trim argument) cue := by
  unfold readArgument
  constructor
  · intro hread
    split at hread
    · rename_i hkeyword
      split at hread
      · rename_i said hsaid
        obtain ⟨body, hbody, hquoted⟩ := Quotation.read_eq_ok_iff.mp hsaid
        rw [← Except.ok.inj hread, hkeyword, hquoted]
        exact .line hbody
      · contradiction
    · split at hread
      · rename_i hkeyword
        split at hread
        · rename_i length hlength
          rw [← Except.ok.inj hread, hkeyword]
          exact .pause (Duration.read_eq_ok_iff.mp hlength)
        · contradiction
      · contradiction
  · intro hwritten
    generalize htrimmed : Text.trim argument = trimmed at hwritten
    cases hwritten with
    | line hbody =>
        rw [if_pos rfl, Quotation.read_eq_ok_iff.mpr ⟨_, hbody, htrimmed⟩]
    | pause hargument =>
        rw [if_neg (by decide), if_pos rfl, Duration.read_eq_ok_iff.mpr (htrimmed ▸ hargument)]

/-! ## The code of a line -/

theorem IsCode.ne_nil (hcode : IsCode code cue) : code ≠ [] := by
  obtain ⟨keyword, blanks, argument, -, -, rfl⟩ := hcode
  exact List.append_ne_nil_of_right_ne_nil keyword (List.cons_ne_nil _ _)

theorem IsCode.tight (hcode : IsCode code cue) : Tight code := by
  obtain ⟨keyword, blanks, argument, hwritten, hblanks, rfl⟩ := hcode
  have hkeyword : Tight keyword ∧ keyword ≠ [] := by
    rcases hwritten.keyword_eq with rfl | rfl <;>
      exact ⟨Text.tight_of_all (by decide), by decide⟩
  have htight :=
    hkeyword.1.around hwritten.tight hkeyword.2 hwritten.argument_ne_nil (' ' :: blanks)
  rwa [List.append_assoc, List.cons_append] at htight

theorem readCue_eq_ok_iff (htight : Tight code) : readCue code = .ok cue ↔ IsCode code cue := by
  unfold readCue
  constructor
  · intro hread
    split at hread
    · rename_i keyword argument hsplit
      obtain ⟨rfl, -⟩ := Text.splitFirst?_eq_some_iff.mp hsplit
      have htight' : Tight ((keyword ++ [' ']) ++ argument) := by
        rwa [List.append_assoc, List.singleton_append]
      obtain ⟨blanks, hblanks, hargument⟩ := Text.exists_blanks_of_append_tight htight'
      have hwritten := readArgument_eq_ok_iff.mp hread
      exact ⟨keyword, blanks, Text.trim argument, hwritten, hblanks, by rw [← hargument]⟩
    · have hwritten := readArgument_eq_ok_iff.mp hread
      exact absurd rfl hwritten.argument_ne_nil
  · rintro ⟨keyword, blanks, argument, hwritten, hblanks, rfl⟩
    have hspace : ' ' ∉ keyword := by
      rcases hwritten.keyword_eq with rfl | rfl <;> decide
    have htrim : Text.trim (blanks ++ argument) = argument := by
      have hbetween := Text.trim_between_blanks hblanks AllBlank.nil hwritten.tight
      rwa [List.append_nil] at hbetween
    rw [Text.splitFirst?_eq_some_iff.mpr ⟨rfl, hspace⟩]
    dsimp only
    rw [readArgument_eq_ok_iff, htrim]
    exact hwritten

/-- The scanner of comments passes over the code of a cue. -/
theorem IsCode.code_append (hcode : IsCode code cue) (rest : List Char) :
    Comment.code false (code ++ rest) = code ++ Comment.code false rest := by
  obtain ⟨keyword, blanks, argument, hwritten, hblanks, rfl⟩ := hcode
  have hkeyword : ∀ c ∈ keyword, IsPlain c := by
    rcases hwritten.keyword_eq with rfl | rfl <;> simp [IsPlain]
  have hfront : ∀ c ∈ keyword ++ ' ' :: blanks, IsPlain c := by
    intro c hc
    rcases List.mem_append.mp hc with hc | hc
    · exact hkeyword c hc
    · rcases List.mem_cons.mp hc with rfl | hc
      · decide
      · exact Comment.isPlain_of_isBlank (hblanks c hc)
  have hcut : keyword ++ ' ' :: (blanks ++ argument) = keyword ++ ' ' :: blanks ++ argument := by
    rw [List.append_assoc, List.cons_append]
  rw [hcut, List.append_assoc, Comment.code_append_of_isPlain hfront, hwritten.code_append,
    List.append_assoc _ argument]

/-! ## Lines -/

/-- A trimmed line holds the cue that is read from its code. -/
theorem holds_iff (htight : Tight text) :
    Holds text cue ↔ readCue (Text.trim (Comment.code false text)) = .ok cue := by
  rw [readCue_eq_ok_iff (Text.tight_trim _)]
  constructor
  · rintro ⟨code, blanks, remark, hcode, hblanks, hremark, rfl⟩
    have hscan : Comment.code false (code ++ blanks ++ remark) = code ++ blanks := by
      rw [List.append_assoc, hcode.code_append,
        Comment.code_append_of_isPlain fun c hc => Comment.isPlain_of_isBlank (hblanks c hc),
        Comment.code_of_isRemark hremark, List.append_nil]
    rwa [hscan, Text.trim_append_of_allBlank hblanks hcode.tight]
  · intro hcode
    -- What is not code ends the line, and a trimmed line starts with its code.
    obtain ⟨remark, hremark, htext⟩ := Comment.exists_remark false text
    rw [htext] at htight
    obtain ⟨blanks, hblanks, htrim⟩ := Text.exists_blanks_of_tight_append htight
    exact ⟨_, blanks, remark, hcode, hblanks, hremark, by rw [← htrim, ← htext]⟩

theorem code?_of_isRemark {line : List Char} (hremark : IsRemark (Text.trim line)) :
    code? line = none := by
  unfold code?
  rcases hremark with hnil | ⟨rest, hrest⟩
  · rw [hnil]
  · rw [hrest]
    rfl

theorem code?_of_not_isRemark {line : List Char} (hremark : ¬ IsRemark (Text.trim line)) :
    code? line = some (Text.trim (Comment.code false (Text.trim line))) := by
  unfold code?
  split
  · rename_i hnil
    exact absurd (.inl hnil) hremark
  · rename_i rest hrest
    exact absurd (.inr ⟨rest, hrest⟩) hremark
  · rfl

/-- A line that holds a cue is no remark. -/
theorem Holds.not_isRemark (hholds : Holds text cue) : ¬ IsRemark text := by
  obtain ⟨code, blanks, remark, ⟨keyword, inner, argument, hwritten, -, rfl⟩, -, -, rfl⟩ := hholds
  rintro (hnil | ⟨rest, hhash⟩) <;> rcases hwritten.keyword_eq with rfl | rfl <;> simp_all

variable {line : List Char} {lines : List (List Char)} {number : Nat}

theorem readLines_cons_of_isRemark (hremark : IsRemark (Text.trim line)) :
    readLines number (line :: lines) = readLines (number + 1) lines := by
  rw [readLines, code?_of_isRemark hremark]

theorem readLines_cons_of_holds (hholds : Holds (Text.trim line) cue) {cues : Script}
    (hlines : readLines (number + 1) lines = .ok cues) :
    readLines number (line :: lines) = .ok (cue :: cues) := by
  have hcue := (holds_iff (Text.tight_trim line)).mp hholds
  rw [readLines, code?_of_not_isRemark hholds.not_isRemark]
  dsimp only
  rw [hcue, hlines]

/-- A source of one line is a script of the cue that the line holds, and otherwise no script. -/
theorem readLines_singleton (number : Nat) (hremark : ¬ IsRemark (Text.trim line)) :
    (∃ cue, Holds (Text.trim line) cue ∧ readLines number [line] = .ok [cue]) ∨
      (∀ cue, ¬ Holds (Text.trim line) cue) ∧ ∃ fault, readLines number [line] = .error fault := by
  cases hread : readCue (Text.trim (Comment.code false (Text.trim line))) with
  | ok cue =>
      have hholds := (holds_iff (Text.tight_trim line)).mpr hread
      exact .inl ⟨cue, hholds, readLines_cons_of_holds hholds rfl⟩
  | error cause =>
      refine .inr ⟨fun cue hholds => ?_, ?_⟩
      · rw [(holds_iff (Text.tight_trim line)).mp hholds] at hread
        contradiction
      · rw [readLines, code?_of_not_isRemark hremark]
        dsimp only
        rw [hread]
        exact ⟨_, rfl⟩

/-- A line that is empty or starts with a hash, blanks aside, gives no cue.  Any other line gives
just the cue that the grammar says it holds, and a fault if it holds none. -/
theorem read_line_iff {line : String} (hfeed : '\n' ∉ line.toList) :
    (IsRemark (Text.trim line.toList) → read line = .ok []) ∧
      (¬ IsRemark (Text.trim line.toList) →
        (∀ cue, read line = .ok [cue] ↔ Holds (Text.trim line.toList) cue) ∧
          ((∀ cue, ¬ Holds (Text.trim line.toList) cue) → ∃ fault, read line = .error fault)) := by
  unfold read
  by_cases hempty : line.toList = []
  · rw [hempty]
    exact ⟨fun _ => rfl, fun hremark => absurd (.inl rfl) hremark⟩
  · rw [Text.lines_of_not_mem hfeed hempty]
    refine ⟨fun hremark => readLines_cons_of_isRemark hremark, fun hremark => ?_⟩
    rcases readLines_singleton 1 hremark with ⟨cue, hholds, hread⟩ | ⟨hnone, hread⟩
    · refine ⟨fun other => ?_, fun hnone => absurd hholds (hnone cue)⟩
      rw [hread]
      constructor
      · intro heq
        obtain rfl : cue = other := by simpa using heq
        exact hholds
      · intro hother
        have hsame : readLines 1 [line.toList] = .ok [other] := readLines_cons_of_holds hother rfl
        rwa [hread] at hsame
    · refine ⟨fun cue => ⟨fun heq => ?_, fun hholds => absurd hholds (hnone cue)⟩, fun _ => hread⟩
      obtain ⟨fault, hfault⟩ := hread
      rw [hfault] at heq
      contradiction

/-- A hash and a quote are said, and a quote in the comment opens nothing. -/
theorem read_line_iff_of_quoted_hash :
    '\n' ∉ "\tsay \"#\\\"\\t\" # \"".toList ∧
      ¬ IsRemark (Text.trim "\tsay \"#\\\"\\t\" # \"".toList) ∧
      Holds (Text.trim "\tsay \"#\\\"\\t\" # \"".toList) (.line "#\"\t") := by
  have hfeed : '\n' ∉ "\tsay \"#\\\"\\t\" # \"".toList := by decide
  have hremark : ¬ IsRemark (Text.trim "\tsay \"#\\\"\\t\" # \"".toList) := by decide
  have hread : read "\tsay \"#\\\"\\t\" # \"" = .ok [.line "#\"\t"] := by rfl
  exact ⟨hfeed, hremark, (((read_line_iff hfeed).2 hremark).1 _).mp hread⟩

end Script

end Typewriter

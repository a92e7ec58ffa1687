/-!
# Blanks

White space around a written value carries no meaning, so readers trim it.  The blanks are the
characters of the Unicode property `White_Space`, and `trim_append_blanks` says that trimming takes
off blanks and nothing else.
-/

namespace Typewriter.Text

/-- Blanks are the characters with the Unicode property `White_Space`. -/
def isBlank (c : Char) : Bool :=
  let n := c.toNat
  (0x0009 ≤ n && n ≤ 0x000D) || n == 0x0020 || n == 0x0085 || n == 0x00A0 || n == 0x1680 ||
    (0x2000 ≤ n && n ≤ 0x200A) || n == 0x2028 || n == 0x2029 || n == 0x202F || n == 0x205F ||
    n == 0x3000

/-- A text without its leading blanks. -/
def trimStart (cs : List Char) : List Char :=
  cs.dropWhile isBlank

/-- A text without its trailing blanks. -/
def trimEnd (cs : List Char) : List Char :=
  (cs.reverse.dropWhile isBlank).reverse

/-- A text without the blanks at its two ends. -/
def trim (cs : List Char) : List Char :=
  trimEnd (trimStart cs)

theorem trimStart_append_blanks (cs : List Char) :
    ∃ lead, lead ++ trimStart cs = cs ∧ lead.all isBlank = true :=
  ⟨cs.takeWhile isBlank, List.takeWhile_append_dropWhile, List.all_takeWhile⟩

theorem trimEnd_append_blanks (cs : List Char) :
    ∃ tail, trimEnd cs ++ tail = cs ∧ tail.all isBlank = true := by
  obtain ⟨lead, happ, hlead⟩ := trimStart_append_blanks cs.reverse
  refine ⟨lead.reverse, ?_, by simpa using hlead⟩
  have h := congrArg List.reverse happ
  simpa [trimStart, trimEnd] using h

theorem trim_append_blanks (cs : List Char) :
    ∃ lead tail, lead ++ trim cs ++ tail = cs ∧ lead.all isBlank = true ∧
      tail.all isBlank = true := by
  obtain ⟨lead, hlead, hl⟩ := trimStart_append_blanks cs
  obtain ⟨tail, htail, ht⟩ := trimEnd_append_blanks (trimStart cs)
  exact ⟨lead, tail, by rw [List.append_assoc, trim, htail, hlead], hl, ht⟩

end Typewriter.Text

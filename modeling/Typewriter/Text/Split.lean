/-!
# Splitting texts

Texts are cut at separators: a line of a script at its first blank, a delay option at its last
equals sign, a document at its line feeds.  Every cut loses the separator and nothing else:
`splitFirst?_eq_some_iff` and `splitLast?_eq_some_iff` state it for the first two.
-/

namespace Typewriter.Text

/-- The parts before and after the first separator. -/
def splitFirst? (sep : Char) : List Char → Option (List Char × List Char)
  | [] => none
  | c :: cs =>
      if c = sep then some ([], cs)
      else
        match splitFirst? sep cs with
        | some parts => some (c :: parts.1, parts.2)
        | none => none

/-- The parts before and after the last separator. -/
def splitLast? (sep : Char) : List Char → Option (List Char × List Char)
  | [] => none
  | c :: cs =>
      match splitLast? sep cs with
      | some parts => some (c :: parts.1, parts.2)
      | none => if c = sep then some ([], cs) else none

/-- The lines of a document.  A line feed ends a line, and what follows the last line feed is a
line only if it is not empty.  Documents may be made of characters or of bytes. -/
def lines {α : Type} [DecidableEq α] (feed : α) : List α → List (List α)
  | [] => []
  | c :: cs =>
      if c = feed then [] :: lines feed cs
      else
        match lines feed cs with
        | [] => [[c]]
        | line :: rest => (c :: line) :: rest

/-- What follows the first `n` bytes of a text in UTF-8, or nothing if a character straddles that
point or the text is shorter. -/
def afterBytes? : Nat → List Char → Option (List Char)
  | 0, cs => some cs
  | _ + 1, [] => none
  | n + 1, c :: cs => if c.utf8Size ≤ n + 1 then afterBytes? (n + 1 - c.utf8Size) cs else none

theorem splitFirst?_eq_some_iff {sep : Char} {cs before after : List Char} :
    splitFirst? sep cs = some (before, after) ↔ cs = before ++ sep :: after ∧ sep ∉ before := by
  induction cs generalizing before with
  | nil => simp [splitFirst?]
  | cons c cs ih => cases before <;> grind [splitFirst?]

theorem splitLast?_eq_none_iff {sep : Char} {cs : List Char} :
    splitLast? sep cs = none ↔ sep ∉ cs := by
  induction cs with
  | nil => simp [splitLast?]
  | cons c cs ih => grind [splitLast?]

theorem splitLast?_eq_some_iff {sep : Char} {cs before after : List Char} :
    splitLast? sep cs = some (before, after) ↔ cs = before ++ sep :: after ∧ sep ∉ after := by
  induction cs generalizing before with
  | nil => simp [splitLast?]
  | cons c cs ih => cases before <;> grind [splitLast?, splitLast?_eq_none_iff]

theorem afterBytes?_utf8ByteSize_ofList (cs rest : List Char) :
    afterBytes? (String.ofList cs).utf8ByteSize (cs ++ rest) = some rest := by
  induction cs with
  | nil => cases rest <;> rfl
  | cons c cs ih =>
      have hpos : 0 < c.utf8Size := c.utf8Size_pos
      obtain ⟨n, hn⟩ : ∃ n, c.utf8Size + (String.ofList cs).utf8ByteSize = n + 1 :=
        ⟨c.utf8Size + (String.ofList cs).utf8ByteSize - 1, by omega⟩
      rw [String.ofList_cons, String.utf8ByteSize_append, String.utf8ByteSize_singleton,
        List.cons_append, hn, afterBytes?, if_pos (by omega), ← hn, Nat.add_sub_cancel_left]
      exact ih

/-- The byte count of a text is the place behind it in every text that starts with it. -/
theorem afterBytes?_utf8ByteSize (s : String) (rest : List Char) :
    afterBytes? s.utf8ByteSize (s.toList ++ rest) = some rest := by
  have hbytes := afterBytes?_utf8ByteSize_ofList s.toList rest
  rwa [String.ofList_toList] at hbytes

end Typewriter.Text

/-!
# Comments

A hash starts a comment, which runs to the end of its line.  A hash between double quotes is text,
and so is every character behind a backslash.
-/

namespace Typewriter.Script.Comment

/-- The part of a line before its comment.  `quoted` tells whether the line starts between
quotes. -/
def code (quoted : Bool) : List Char → List Char
  | [] => []
  | ['\\'] => ['\\']
  | '\\' :: c :: cs => '\\' :: c :: code quoted cs
  | '"' :: cs => '"' :: code (!quoted) cs
  | '#' :: cs => if quoted then '#' :: code quoted cs else []
  | c :: cs => c :: code quoted cs

end Typewriter.Script.Comment

import Typewriter.Text.Extending
import Typewriter.Text.Printable

/-!
# Quoted text

Text that is shown for inspection stands between quotes, and every character that could be
overlooked or mistaken is escaped: control characters, the backslash, the quote itself, and
characters that are not printable or that would join the one before them.
-/

namespace Typewriter.Text

/-- The escape of a code point: its number in lower-case hexadecimal digits. -/
def escapeNumber (c : Char) : List Char :=
  "\\u\x7b".toList ++ Nat.toDigits 16 c.toNat ++ "\x7d".toList

/-- A character as it stands between two `quote`s. -/
def quoteChar (quote : Char) (c : Char) : List Char :=
  if c = '\x00' then ['\\', '0']
  else if c = '\t' then ['\\', 't']
  else if c = '\r' then ['\\', 'r']
  else if c = '\n' then ['\\', 'n']
  else if c = '\\' ∨ c = quote then ['\\', c]
  else if isExtending c || !isPrintable c then escapeNumber c
  else [c]

/-- A text between double quotes. -/
def inspectString (text : String) : String :=
  "\"" ++ String.ofList (text.toList.flatMap (quoteChar '"')) ++ "\""

/-- A character between single quotes. -/
def inspectChar (c : Char) : String :=
  "'" ++ String.ofList (quoteChar '\'' c) ++ "'"

end Typewriter.Text

import Typewriter.Text.Blank

/-!
# Quotations

The text of a line is written between double quotes.  A backslash takes the meaning off the
character behind it, so that quotes and backslashes can be written; `\n` and `\t` are a line feed
and a tabulator.
-/

namespace Typewriter.Script.Quotation

/-- Why a text is no quotation. -/
inductive Fault where
  | unopened
  | unclosed
  | danglingEscape
  | trailingText (rest : String)
deriving DecidableEq, Repr

/-- What an escaped character stands for. -/
def unescape : Char → Char
  | 'n' => '\n'
  | 't' => '\t'
  | c => c

/-- Read up to the closing quote.  The result is the text and what follows the quote. -/
def readBody : List Char → Except Fault (List Char × List Char)
  | [] => .error .unclosed
  | ['\\'] => .error .danglingEscape
  | '\\' :: c :: cs =>
      match readBody cs with
      | .ok (text, rest) => .ok (unescape c :: text, rest)
      | .error fault => .error fault
  | '"' :: cs => .ok ([], cs)
  | c :: cs =>
      match readBody cs with
      | .ok (text, rest) => .ok (c :: text, rest)
      | .error fault => .error fault

/-- Read a quotation.  Blanks may stand around it, and nothing else. -/
def read (cs : List Char) : Except Fault String :=
  match Text.trim cs with
  | '"' :: body =>
      match readBody body with
      | .error fault => .error fault
      | .ok (text, rest) =>
          let rest := Text.trim rest
          if rest.isEmpty then .ok (String.ofList text)
          else .error (.trailingText (String.ofList rest))
  | _ => .error .unopened

/-- The fault in words. -/
def Fault.message : Fault → String
  | .unopened => "Expected string to start with '\"'"
  | .unclosed => "Expected string to end with '\"'"
  | .danglingEscape => "Dangling escape at end of string"
  | .trailingText rest => "Unexpected text after closing quote: " ++ rest

end Typewriter.Script.Quotation

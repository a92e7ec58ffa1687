import Typewriter.Options.Draft

/-!
# Help

The program can describe itself: its options, and its version.
-/

namespace Typewriter.Options

/-- The help of the program. -/
def helpText : String :=
  "Play a dialogue script in the terminal, one character at a time. Press Enter to advance.

Usage: dialogue [OPTIONS] --script <SCRIPT>

Options:
  -s, --script <SCRIPT>        Path to the script file
      --speed <SPEED>          Milliseconds between characters (0 shows lines at once) [default: 50]
  -d, --delimiter <DELIMITER>  Prefix marking command lines, e.g. \"/\"
      --delay <DELAYS>         Extra delay after a character, as CHAR=MS (repeatable)
      --cursor <CURSOR>        Indicator shown after the text while a line is typing
      --jitter <JITTER>        Random extra milliseconds (0..=N) added to each character [default: 0]
  -h, --help                   Print help
  -V, --version                Print version
"

/-- The name and version of the program. -/
def versionText : String := "dialogue 0.1.0\n"

/-- What the program prints instead of playing, when it was asked to. -/
def Refusal.answer : Refusal → String
  | .misuse _ => ""
  | .help => helpText
  | .version => versionText

end Typewriter.Options

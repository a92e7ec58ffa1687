import Typewriter.Performance.Basic

/-!
# Screens

A screen is what can be seen of a performance at a moment.  On a terminal it is drawn from scratch:
the terminal is cleared, the last alert stands on top as a banner, and under it the text.
-/

namespace Typewriter

/-- What can be seen of a performance. -/
structure Screen where
  text : String
  phase : Phase
  live : Bool
  marker : Option String
deriving DecidableEq, Repr

namespace Screen

/-- The visible text.  A marker stands behind it while a line is being typed. -/
def display (screen : Screen) : String :=
  match screen.marker with
  | some marker =>
      if screen.phase = .typing ∧ screen.live then screen.text ++ marker else screen.text
  | none => screen.text

/-- Whether a line is shown in full. -/
def hasMore (screen : Screen) : Bool :=
  screen.phase = .shown

/-- The control sequence that clears a terminal. -/
def clearSequence : String := "\x1b[2J\x1b[1;1H"

/-- The sign that the reader may go on. -/
def moreSign : String := "  ▼"

/-- The line on top of a frame. -/
def bannerLine : Option String → String
  | some message => "[!] " ++ message ++ "\r\n\r\n"
  | none => ""

/-- All that is sent to a terminal to draw a screen. -/
def frame (screen : Screen) (banner : Option String) : String :=
  clearSequence ++ bannerLine banner ++ screen.display ++
    (if screen.hasMore ∧ screen.live then moreSign else "")

end Screen

namespace Performance

/-- The present screen of a performance. -/
def screen (p : Performance) : Screen :=
  ⟨p.shown, p.phase, p.live, p.setup.marker⟩

/-- The present frame of a performance, under its last alert. -/
def frame (p : Performance) : String :=
  p.screen.frame (Event.lastAlert? p.log)

end Performance

end Typewriter

import Typewriter.Duration.Basic

/-!
# Tempo

A typewriter waits after each character: a fixed interval, a rest that depends on the character,
and a random part.  The last character of a line earns no rest.
-/

namespace Typewriter

/-- Rests after characters, in the order in which they were set.  The last one set for a character
counts. -/
structure Rests where
  entries : List (Char × Duration) := []
deriving DecidableEq

namespace Rests

/-- Set the rest after a character. -/
def insert (rests : Rests) (c : Char) (rest : Duration) : Rests :=
  ⟨rests.entries ++ [(c, rest)]⟩

/-- The rests of a list, set one by one. -/
def ofList (entries : List (Char × Duration)) : Rests :=
  ⟨entries⟩

/-- The rest that was set for a character. -/
def get? (rests : Rests) (c : Char) : Option Duration :=
  (rests.entries.reverse.find? fun entry => entry.1 = c).map Prod.snd

/-- The rest after a character; nothing if none was set. -/
def after (rests : Rests) (c : Char) : Duration :=
  (rests.get? c).getD 0

/-- Whether no rest was set. -/
def isEmpty (rests : Rests) : Bool :=
  rests.entries.isEmpty

/-- The rests that count, each character once. -/
def toList (rests : Rests) : List (Char × Duration) :=
  (rests.entries.map Prod.fst).eraseDups.map fun c => (c, rests.after c)

end Rests

/-- The delays of a typewriter. -/
structure Tempo where
  interval : Duration := .ofMillis 50
  jitter : Duration := 0
  rests : Rests := {}
deriving DecidableEq

namespace Tempo

/-- Without an interval there is no typing, and lines appear whole. -/
def isInstant (tempo : Tempo) : Bool :=
  tempo.interval = 0

/-- The largest random part, in milliseconds, which fills 64 bits. -/
def jitterLimit (tempo : Tempo) : Nat :=
  tempo.jitter.wholeMillis % UInt64.size

/-- The random part that a draw stands for. -/
def jitterAmount (tempo : Tempo) (draw : Nat) : Duration :=
  .ofMillis (UInt64.ofNat (draw % (tempo.jitterLimit + 1)))

/-- The delay after a character, unless the sum is too long for a duration. -/
def delay? (tempo : Tempo) (draw : Nat) (c : Char) (isLast : Bool) : Option Duration := do
  let rested ← if isLast then some tempo.interval else tempo.interval.add? (tempo.rests.after c)
  if tempo.jitter = 0 then some rested else rested.add? (tempo.jitterAmount draw)

end Tempo

end Typewriter

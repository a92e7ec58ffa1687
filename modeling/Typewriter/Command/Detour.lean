import Typewriter.Command.Handler

/-!
# Detours

A list of detours is a handler that sends the walk elsewhere by the beginning of a line.  Every line
that it looks at leaves an event.
-/

namespace Typewriter

/-- Where a detour leads. -/
inductive Jump where
  | to (position : Nat)
  | by (offset : Int)
deriving DecidableEq, Repr

/-- Lines that start with `lead` are left for another position. -/
structure Detour where
  lead : String
  jump : Jump
deriving DecidableEq, Repr

namespace Detour

/-- The position that a jump leads to, kept between zero and the largest position. -/
def destination (position : Nat) : Jump → Nat
  | .to target => target
  | .by offset => min ((position : Int) + offset).toNat maxPosition

/-- Whether a line starts with the lead of a detour. -/
def fits (detour : Detour) (text : String) : Bool :=
  detour.lead.toList.isPrefixOf text.toList

/-- Take the first detour that fits; without one the line is left alone. -/
def reply (detours : List Detour) (query : Query) : Reply :=
  let next :=
    match detours.find? fun detour => detour.fits query.text with
    | some detour => destination query.position detour.jump
    | none => query.position
  ⟨next, [.query query.text query.position]⟩

/-- The handler of a list of detours. -/
def handler (detours : List Detour) : Handler :=
  .ofFunction (reply detours)

end Detour

end Typewriter

import Typewriter.Proofs.Walk

/-!
# The path through a script

If the positions that a handler answers depend only on the line and its position, they fix one path
through each script: from an effect or a pause to the next cue, and from a line to where the handler
sends the walk, or to the next cue if the handler leaves the line alone.

Walks are pieces of this path.  `Script.pathFrom_eq_visits_append` says that the visits of a walk
are the next piece, and that the path behind them starts where the walk is taken up again;
`Script.pairwise_pathFrom` says that positions grow along the path, and
`Script.resolve_le_of_mem_pathFrom` that it leaves out what the handler jumps over.
-/

namespace Typewriter

/-- Where the path goes on behind a cue, if `resolve` tells the positions that a handler answers. -/
def Script.pathStep (resolve : Query → Nat) (position : Nat) : Cue → Nat
  | .line text =>
      if position < resolve ⟨text, position⟩ then resolve ⟨text, position⟩ else position + 1
  | .pause _ => position + 1
  | .effect _ => position + 1

theorem Script.lt_pathStep (resolve : Query → Nat) (position : Nat) (cue : Cue) :
    position < pathStep resolve position cue := by
  cases cue with
  | line text =>
      simp only [pathStep]
      split
      · assumption
      · exact Nat.lt_succ_self position
  | pause length => exact Nat.lt_succ_self position
  | effect name => exact Nat.lt_succ_self position

/-- The path through a script from a position. -/
def Script.pathFrom (script : Script) (resolve : Query → Nat) (position : Nat) : List Visit :=
  if h : position < script.length then
    ⟨position, script[position]⟩ ::
      script.pathFrom resolve (pathStep resolve position script[position])
  else []
termination_by script.length - position
decreasing_by
  have := Script.lt_pathStep resolve position script[position]
  omega

/-- The path through a script from its first cue. -/
def Script.path (script : Script) (resolve : Query → Nat) : List Visit :=
  script.pathFrom resolve 0

/-- The position at which a walk is taken up again after a stop in a script of some length. -/
def Stop.resume (length : Nat) : Stop → Nat
  | .line position => position + 1
  | .pause _ next => next
  | .ending => length

/-- What a visit does, if `asked` was put to the handler before. -/
def Visit.events (handler : Handler) (asked : List Query) (visit : Visit) : List Event :=
  match visit.cue with
  | .line text => (handler asked ⟨text, visit.position⟩).events
  | .pause _ => []
  | .effect name => [.effect name]

/-- What visits do, one after the other. -/
def Visit.eventsAlong (handler : Handler) (asked : List Query) : List Visit → List Event
  | [] => []
  | visit :: rest =>
      visit.events handler asked ++ eventsAlong handler (asked ++ visit.query?.toList) rest

/-- The position of a visited line that the handler left alone. -/
def Visit.typedAt? (resolve : Query → Nat) (visit : Visit) : Option Nat :=
  match visit.cue with
  | .line text =>
      if visit.position < resolve ⟨text, visit.position⟩ then none else some visit.position
  | .pause _ => none
  | .effect _ => none

namespace Visit

theorem eventsAlong_append (handler : Handler) (asked : List Query) (before after : List Visit) :
    eventsAlong handler asked (before ++ after) =
      eventsAlong handler asked before ++
        eventsAlong handler (asked ++ before.filterMap query?) after := by
  induction before generalizing asked with
  | nil => simp [eventsAlong]
  | cons visit rest ih =>
      rw [List.cons_append, eventsAlong, eventsAlong, ih, List.append_assoc]
      cases hquery : visit.query? <;> simp [hquery]

theorem position_eq_of_typedAt?_eq_some {resolve : Query → Nat} {visit : Visit} {position : Nat}
    (htyped : visit.typedAt? resolve = some position) : visit.position = position := by
  unfold typedAt? at htyped
  split at htyped
  · split at htyped
    · contradiction
    · exact Option.some.inj htyped
  · contradiction
  · contradiction

end Visit

/-- The last of some visits is the one at which a walk stops, and only if that is a line, it is left
alone. -/
def Stop.Closes (resolve : Query → Nat) (visits : List Visit) : Stop → Prop
  | .line position =>
      visits.filterMap (Visit.typedAt? resolve) = [position] ∧
        ∃ text, visits.getLast? = some ⟨position, .line text⟩ ∧
          resolve ⟨text, position⟩ ≤ position
  | .pause length next =>
      visits.filterMap (Visit.typedAt? resolve) = [] ∧
        ∃ position, next = position + 1 ∧ visits.getLast? = some ⟨position, .pause length⟩
  | .ending => visits.filterMap (Visit.typedAt? resolve) = []

theorem Stop.Closes.cons {resolve : Query → Nat} {visits : List Visit} {stop : Stop}
    {visit : Visit} (hcloses : stop.Closes resolve visits)
    (htyped : visit.typedAt? resolve = none) : stop.Closes resolve (visit :: visits) := by
  cases stop with
  | line position =>
      obtain ⟨hlines, text, hlast, hnext⟩ := hcloses
      refine ⟨?_, text, ?_, hnext⟩
      · rw [List.filterMap_cons_none htyped, hlines]
      · rw [List.getLast?_cons, hlast, Option.getD_some]
  | pause length next =>
      obtain ⟨hlines, position, hnext, hlast⟩ := hcloses
      refine ⟨?_, position, hnext, ?_⟩
      · rw [List.filterMap_cons_none htyped, hlines]
      · rw [List.getLast?_cons, hlast, Option.getD_some]
  | ending =>
      have hlines : visits.filterMap (Visit.typedAt? resolve) = [] := hcloses
      show (visit :: visits).filterMap (Visit.typedAt? resolve) = []
      rw [List.filterMap_cons_none htyped, hlines]

namespace Script

variable {script : Script} {handler : Handler} {resolve : Query → Nat} {position : Nat}

theorem pathFrom_of_getElem?_eq_some {cue : Cue} (hcue : script[position]? = some cue) :
    script.pathFrom resolve position =
      ⟨position, cue⟩ :: script.pathFrom resolve (pathStep resolve position cue) := by
  obtain ⟨hlt, hget⟩ := List.getElem?_eq_some_iff.mp hcue
  rw [pathFrom, dif_pos hlt, hget]

theorem pathFrom_of_length_le (hle : script.length ≤ position) :
    script.pathFrom resolve position = [] := by
  rw [pathFrom, dif_neg (Nat.not_lt.mpr hle)]

/-- To prove something of the path from every position, prove it behind the script and carry it
over one visit. -/
theorem pathFrom_induction {motive : Nat → List Visit → Prop}
    (behind : ∀ position, script.length ≤ position → motive position [])
    (visit : ∀ position cue, script[position]? = some cue →
      motive (pathStep resolve position cue)
        (script.pathFrom resolve (pathStep resolve position cue)) →
      motive position
        (⟨position, cue⟩ :: script.pathFrom resolve (pathStep resolve position cue)))
    (position : Nat) : motive position (script.pathFrom resolve position) := by
  by_cases hlt : position < script.length
  · have hcue : script[position]? = some script[position] := List.getElem?_eq_getElem hlt
    rw [pathFrom_of_getElem?_eq_some hcue]
    exact visit position _ hcue (pathFrom_induction behind visit _)
  · rw [pathFrom_of_length_le (Nat.not_lt.mp hlt)]
    exact behind position (Nat.not_lt.mp hlt)
termination_by script.length - position
decreasing_by
  have := lt_pathStep resolve position script[position]
  omega

theorem le_position_of_mem_pathFrom :
    ∀ visit ∈ script.pathFrom resolve position, position ≤ visit.position := by
  refine pathFrom_induction
    (motive := fun position path => ∀ visit ∈ path, position ≤ visit.position)
    ?behind ?visit position
  case behind =>
    intro position _ visit hvisit
    contradiction
  case visit =>
    intro position cue _ ih visit hvisit
    rcases List.mem_cons.mp hvisit with rfl | hrest
    · exact Nat.le_refl _
    · have hstep := lt_pathStep resolve position cue
      have hle := ih visit hrest
      omega

/-- Positions grow along the path, so it comes to each cue at most once. -/
theorem pairwise_pathFrom (position : Nat) :
    (script.pathFrom resolve position).Pairwise
      fun earlier later => earlier.position < later.position := by
  refine pathFrom_induction
    (motive := fun _ path => path.Pairwise fun earlier later => earlier.position < later.position)
    ?behind ?visit position
  case behind =>
    intro position _
    exact List.Pairwise.nil
  case visit =>
    intro position cue _ ih
    refine List.Pairwise.cons ?_ ih
    intro later hlater
    have hstep : position < pathStep resolve position cue := lt_pathStep resolve position cue
    exact Nat.lt_of_lt_of_le hstep (le_position_of_mem_pathFrom later hlater)

/-- The path comes to every cue at its own position. -/
theorem getElem?_of_mem_pathFrom (position : Nat) :
    ∀ visit ∈ script.pathFrom resolve position, script[visit.position]? = some visit.cue := by
  refine pathFrom_induction
    (motive := fun _ path => ∀ visit ∈ path, script[visit.position]? = some visit.cue)
    ?behind ?visit position
  case behind =>
    intro position _ visit hvisit
    contradiction
  case visit =>
    intro position cue hcue ih visit hvisit
    rcases List.mem_cons.mp hvisit with rfl | hrest
    · exact hcue
    · exact ih visit hrest

/-- Behind a line, the path has nothing before the position where the handler sends the walk. -/
theorem resolve_le_of_mem_pathFrom (position : Nat) :
    ∀ visit ∈ script.pathFrom resolve position, ∀ text, visit.cue = .line text →
      ∀ later ∈ script.pathFrom resolve position, visit.position < later.position →
        resolve ⟨text, visit.position⟩ ≤ later.position := by
  refine pathFrom_induction
    (motive := fun _ path => ∀ visit ∈ path, ∀ text, visit.cue = .line text →
      ∀ later ∈ path, visit.position < later.position →
        resolve ⟨text, visit.position⟩ ≤ later.position) ?behind ?visit position
  case behind =>
    intro position _ visit hvisit
    contradiction
  case visit =>
    intro position cue _ ih visit hvisit text htext later hlater hlt
    have hrest (visit : Visit) (hvisit : visit ∈ script.pathFrom resolve
        (pathStep resolve position cue)) : pathStep resolve position cue ≤ visit.position :=
      le_position_of_mem_pathFrom visit hvisit
    have hstep := lt_pathStep resolve position cue
    rcases List.mem_cons.mp hvisit with rfl | hvisit
    · rcases List.mem_cons.mp hlater with rfl | hlater
      · exact absurd hlt (Nat.lt_irrefl _)
      · -- The line comes first, and the rest of the path starts where its handler sends the walk.
        have hle := hrest later hlater
        simp only at htext hle ⊢
        subst htext
        simp only [pathStep] at hle
        split at hle <;> omega
    · rcases List.mem_cons.mp hlater with rfl | hlater
      · -- `later` comes first, so it cannot be behind `visit`.
        have hle := hrest visit hvisit
        simp only at hlt
        omega
      · exact ih visit hvisit text htext later hlater hlt

/-! ## Walks are pieces of the path -/

/-- The visits of a walk are the next piece of the path. -/
theorem pathFrom_eq_visits_append
    (hresolve : ∀ asked query, (handler asked query).next = resolve query)
    (asked : List Query) (position : Nat) :
    script.pathFrom resolve position =
      (script.walkFrom handler asked position).visits ++
        script.pathFrom resolve
          ((script.walkFrom handler asked position).stop.resume script.length) := by
  refine walkFrom_induction handler
    (motive := fun _ position walk => script.pathFrom resolve position =
      walk.visits ++ script.pathFrom resolve (walk.stop.resume script.length))
    ?behind ?pause ?left ?effect ?handled asked position
  case behind =>
    intro _ position hle
    rw [pathFrom_of_length_le hle]
    exact (pathFrom_of_length_le (Nat.le_refl script.length)).symm
  case pause =>
    intro _ position length hcue
    exact pathFrom_of_getElem?_eq_some hcue
  case left =>
    intro asked position text hcue hnext
    rw [hresolve] at hnext
    rw [pathFrom_of_getElem?_eq_some hcue, pathStep, if_neg (Nat.not_lt.mpr hnext)]
    rfl
  case effect =>
    intro _ position name walk hcue ih
    rw [pathFrom_of_getElem?_eq_some hcue, pathStep, ih]
    rfl
  case handled =>
    intro asked position text walk hcue hnext ih
    rw [hresolve] at hnext ih
    rw [pathFrom_of_getElem?_eq_some hcue, pathStep, if_pos hnext, ih]
    rfl

/-- The events of a walk are those of its visits. -/
theorem walkFrom_events (script : Script) (handler : Handler) (asked : List Query)
    (position : Nat) :
    (script.walkFrom handler asked position).events =
      Visit.eventsAlong handler asked (script.walkFrom handler asked position).visits := by
  refine walkFrom_induction handler
    (motive := fun asked _ walk => walk.events = Visit.eventsAlong handler asked walk.visits)
    ?behind ?pause ?left ?effect ?handled asked position
  case behind =>
    intro _ _ _
    rfl
  case pause =>
    intro _ _ _ _
    rfl
  case left =>
    intro asked position text _ _
    simp [Visit.eventsAlong, Visit.events]
  case effect =>
    intro asked position name walk _ ih
    simp [Visit.eventsAlong, Visit.events, Visit.query?, Cue.text?, ih]
  case handled =>
    -- The walk behind a line goes on with one more question asked, and so do the events.
    intro asked position text walk _ _ ih
    simp [Visit.eventsAlong, Visit.events, Visit.query?, Cue.text?, ih]

/-- The visits of a walk lead to its stop, and the line at which it stops is the only one among them
that is left alone. -/
theorem walkFrom_closes
    (hresolve : ∀ asked query, (handler asked query).next = resolve query)
    (asked : List Query) (position : Nat) :
    (script.walkFrom handler asked position).stop.Closes resolve
      (script.walkFrom handler asked position).visits := by
  refine walkFrom_induction handler
    (motive := fun _ _ walk => walk.stop.Closes resolve walk.visits)
    ?behind ?pause ?left ?effect ?handled asked position
  case behind =>
    intro _ _ _
    rfl
  case pause =>
    intro _ position length _
    exact ⟨rfl, position, rfl, rfl⟩
  case left =>
    intro asked position text _ hnext
    rw [hresolve] at hnext
    refine ⟨?_, text, rfl, hnext⟩
    simp [Visit.typedAt?, Nat.not_lt.mpr hnext]
  case effect =>
    intro _ position name walk _ ih
    exact ih.cons rfl
  case handled =>
    intro asked position text walk _ hnext ih
    rw [hresolve] at hnext
    refine ih.cons ?_
    simp [Visit.typedAt?, hnext]

end Script

end Typewriter

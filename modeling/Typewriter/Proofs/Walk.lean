import Typewriter.Performance.Walk

/-!
# Walks by position

`Walk.through` recurses on the cues that are left.  Here the same walk is described by positions in
the whole script: one equation for each kind of cue at the present position, and an induction
principle with the same cases.  `Script.walkFrom_stop_within` says where a walk can stop: at a line
or a pause of the script that is not before the position from which it started, or behind the last
cue.
-/

namespace Typewriter

namespace Walk

/-- Cues that are left out may as well be cut off. -/
theorem through_eq_through_drop (handler : Handler) (asked : List Query) (cues : Script)
    (position skip : Nat) :
    through handler asked cues position skip =
      through handler asked (cues.drop skip) (position + skip) 0 := by
  induction cues generalizing position skip with
  | nil => simp [through]
  | cons cue cues ih =>
      cases skip with
      | zero => rfl
      | succ skip =>
          -- One cue fewer is left to skip, and the position has moved on by one.
          rw [List.drop_succ_cons, show position + (skip + 1) = position + 1 + skip by omega]
          exact ih (position + 1) skip

@[simp] theorem visits_visiting (walk : Walk) (visit : Visit) (events : List Event) :
    (walk.visiting visit events).visits = visit :: walk.visits := rfl

@[simp] theorem events_visiting (walk : Walk) (visit : Visit) (events : List Event) :
    (walk.visiting visit events).events = events ++ walk.events := rfl

end Walk

namespace Script

variable (script : Script) (handler : Handler) (asked : List Query) {position : Nat}

theorem walkFrom_eq_through_drop (position : Nat) :
    script.walkFrom handler asked position =
      .through handler asked (script.drop position) position 0 := by
  unfold walkFrom
  rw [Walk.through_eq_through_drop, Nat.zero_add]

theorem drop_eq_cons {script : Script} {position : Nat} {cue : Cue}
    (hcue : script[position]? = some cue) :
    script.drop position = cue :: script.drop (position + 1) := by
  obtain ⟨hlt, hget⟩ := List.getElem?_eq_some_iff.mp hcue
  rw [List.drop_eq_getElem_cons hlt, hget]

/-! ## One equation for each kind of cue -/

theorem walkFrom_behind (hlength : script.length ≤ position) :
    script.walkFrom handler asked position = ⟨[], [], .ending⟩ := by
  rw [walkFrom_eq_through_drop, List.drop_eq_nil_of_le hlength]
  rfl

variable {script}

theorem walkFrom_effect {name : String} (hcue : script[position]? = some (.effect name)) :
    script.walkFrom handler asked position =
      (script.walkFrom handler asked (position + 1)).visiting ⟨position, .effect name⟩
        [.effect name] := by
  rw [walkFrom_eq_through_drop, walkFrom_eq_through_drop, drop_eq_cons hcue]
  rfl

theorem walkFrom_pause {length : Duration} (hcue : script[position]? = some (.pause length)) :
    script.walkFrom handler asked position =
      ⟨[⟨position, .pause length⟩], [], .pause length (position + 1)⟩ := by
  rw [walkFrom_eq_through_drop, drop_eq_cons hcue]
  rfl

/-- The handler takes care of the line and sends the walk on. -/
theorem walkFrom_line_of_lt {text : String} (hcue : script[position]? = some (.line text))
    (hnext : position < (handler asked ⟨text, position⟩).next) :
    script.walkFrom handler asked position =
      (script.walkFrom handler (asked ++ [⟨text, position⟩])
        (handler asked ⟨text, position⟩).next).visiting ⟨position, .line text⟩
        (handler asked ⟨text, position⟩).events := by
  -- Behind the line, the walk skips to where the handler sends it.
  have hskip : position + 1 + ((handler asked ⟨text, position⟩).next - (position + 1)) =
      (handler asked ⟨text, position⟩).next := by
    omega
  rw [walkFrom_eq_through_drop, walkFrom_eq_through_drop, drop_eq_cons hcue]
  simp only [Walk.through, if_pos hnext]
  rw [Walk.through_eq_through_drop, List.drop_drop, hskip]

/-- The handler leaves the line alone. -/
theorem walkFrom_line_of_le {text : String} (hcue : script[position]? = some (.line text))
    (hnext : (handler asked ⟨text, position⟩).next ≤ position) :
    script.walkFrom handler asked position =
      ⟨[⟨position, .line text⟩], (handler asked ⟨text, position⟩).events, .line position⟩ := by
  rw [walkFrom_eq_through_drop, drop_eq_cons hcue]
  simp only [Walk.through, if_neg (Nat.not_lt.mpr hnext)]

/-! ## Induction along a walk -/

/-- To prove something of all walks, prove it of those that stop at once and carry it over one
visit.  The recursion ends because the position grows and the script does not. -/
theorem walkFrom_induction {motive : List Query → Nat → Walk → Prop}
    (behind : ∀ asked position, script.length ≤ position → motive asked position ⟨[], [], .ending⟩)
    (pause : ∀ asked position length, script[position]? = some (.pause length) →
      motive asked position ⟨[⟨position, .pause length⟩], [], .pause length (position + 1)⟩)
    (left : ∀ asked position text, script[position]? = some (.line text) →
      (handler asked ⟨text, position⟩).next ≤ position →
      motive asked position
        ⟨[⟨position, .line text⟩], (handler asked ⟨text, position⟩).events, .line position⟩)
    (effect : ∀ asked position name walk, script[position]? = some (.effect name) →
      motive asked (position + 1) walk →
      motive asked position (walk.visiting ⟨position, .effect name⟩ [.effect name]))
    (handled : ∀ asked position text walk, script[position]? = some (.line text) →
      position < (handler asked ⟨text, position⟩).next →
      motive (asked ++ [⟨text, position⟩]) (handler asked ⟨text, position⟩).next walk →
      motive asked position
        (walk.visiting ⟨position, .line text⟩ (handler asked ⟨text, position⟩).events))
    (asked : List Query) (position : Nat) :
    motive asked position (script.walkFrom handler asked position) := by
  by_cases hlt : position < script.length
  · have hinduction (asked : List Query) (next : Nat) (hnext : position < next) :
        motive asked next (script.walkFrom handler asked next) :=
      walkFrom_induction behind pause left effect handled asked next
    cases hcue : script[position]? with
    | none => exact absurd hlt (Nat.not_lt.mpr (List.getElem?_eq_none_iff.mp hcue))
    | some cue =>
        cases cue with
        | line text =>
            by_cases hnext : position < (handler asked ⟨text, position⟩).next
            · rw [walkFrom_line_of_lt handler asked hcue hnext]
              exact handled asked position text _ hcue hnext (hinduction _ _ hnext)
            · rw [walkFrom_line_of_le handler asked hcue (Nat.not_lt.mp hnext)]
              exact left asked position text hcue (Nat.not_lt.mp hnext)
        | pause length =>
            rw [walkFrom_pause handler asked hcue]
            exact pause asked position length hcue
        | effect name =>
            rw [walkFrom_effect handler asked hcue]
            exact effect asked position name _ hcue (hinduction _ _ (Nat.lt_succ_self _))
  · rw [walkFrom_behind script handler asked (Nat.not_lt.mp hlt)]
    exact behind asked position (Nat.not_lt.mp hlt)
termination_by script.length - position
decreasing_by omega

/-- A walk comes to every cue at its own position. -/
theorem getElem?_of_mem_visits (script : Script) (handler : Handler) (asked : List Query)
    (position : Nat) : ∀ visit ∈ (script.walkFrom handler asked position).visits,
      script[visit.position]? = some visit.cue := by
  refine walkFrom_induction handler
    (motive := fun _ _ walk => ∀ visit ∈ walk.visits, script[visit.position]? = some visit.cue)
    ?behind ?pause ?left ?effect ?handled asked position
  case behind =>
    intro _ _ _ visit hvisit
    contradiction
  case pause =>
    intro _ position length hcue visit hvisit
    rw [List.mem_singleton.mp hvisit]
    exact hcue
  case left =>
    intro _ position text hcue _ visit hvisit
    rw [List.mem_singleton.mp hvisit]
    exact hcue
  case effect =>
    intro _ position name walk hcue ih
    exact List.forall_mem_cons.mpr ⟨hcue, ih⟩
  case handled =>
    intro _ position text walk hcue _ ih
    exact List.forall_mem_cons.mpr ⟨hcue, ih⟩

/-- A walk that comes to a pause stops there. -/
theorem stop_eq_of_pause_visited (script : Script) (handler : Handler) (asked : List Query)
    (position : Nat) : ∀ visit ∈ (script.walkFrom handler asked position).visits,
      ∀ length, visit.cue = .pause length →
        ∃ next, (script.walkFrom handler asked position).stop = .pause length next := by
  refine walkFrom_induction handler
    (motive := fun _ _ walk => ∀ visit ∈ walk.visits, ∀ length, visit.cue = .pause length →
      ∃ next, walk.stop = .pause length next)
    ?behind ?pause ?left ?effect ?handled asked position
  case behind =>
    intro _ _ _ visit hvisit
    contradiction
  case pause =>
    intro _ position _ _ visit hvisit length hpause
    rw [List.mem_singleton.mp hvisit] at hpause
    rw [Cue.pause.inj hpause]
    exact ⟨position + 1, rfl⟩
  case left =>
    intro _ _ _ _ _ visit hvisit length hpause
    rw [List.mem_singleton.mp hvisit] at hpause
    contradiction
  case effect =>
    intro _ _ _ _ _ ih
    exact List.forall_mem_cons.mpr ⟨nofun, ih⟩
  case handled =>
    intro _ _ _ _ _ _ ih
    exact List.forall_mem_cons.mpr ⟨nofun, ih⟩

/-! ## Where a walk can stop -/

end Script

/-- A stop that a walk through a script can make when it starts from a position. -/
def Stop.Within (script : Script) (start : Nat) : Stop → Prop
  | .line position => start ≤ position ∧ ∃ text, script.lineAt? position = some text
  | .pause length next =>
      ∃ position, start ≤ position ∧ next = position + 1 ∧
        script[position]? = some (.pause length)
  | .ending => True

theorem Stop.Within.mono {script : Script} {start earlier : Nat} {stop : Stop}
    (hwithin : stop.Within script start) (hle : earlier ≤ start) : stop.Within script earlier := by
  cases stop with
  | line position =>
      obtain ⟨hstart, hline⟩ := hwithin
      exact ⟨by omega, hline⟩
  | pause length next =>
      obtain ⟨position, hstart, hnext, hcue⟩ := hwithin
      exact ⟨position, by omega, hnext, hcue⟩
  | ending => trivial

theorem Script.walkFrom_stop_within (script : Script) (handler : Handler) (asked : List Query)
    (position : Nat) : (script.walkFrom handler asked position).stop.Within script position := by
  refine Script.walkFrom_induction handler
    (motive := fun _ position walk => walk.stop.Within script position)
    ?behind ?pause ?left ?effect ?handled asked position
  case behind =>
    intro _ _ _
    trivial
  case pause =>
    intro _ position length hcue
    exact ⟨position, Nat.le_refl _, rfl, hcue⟩
  case left =>
    intro _ position text hcue _
    exact ⟨Nat.le_refl _, text, Script.lineAt?_eq_some_iff.mpr hcue⟩
  case effect =>
    intro _ position _ walk _ hwithin
    exact hwithin.mono (Nat.le_succ position)
  case handled =>
    intro _ _ _ walk _ hnext hwithin
    exact hwithin.mono (Nat.le_of_lt hnext)

end Typewriter

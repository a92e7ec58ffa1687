import Typewriter.Proofs.Path
import Typewriter.Proofs.Performance.Stages

/-!
# Performances follow the path

Three operations take up the walk: the start, the reader behind a shown line, and the alarm of a
pause.  Here all of them together are shown to follow the one path of the script.  The invariant is
`Performance.Follows`: the trail and the path behind `resumesAt` make up the whole path, the log
consists of the events of the trail, the trail ends where the performance stands, and the lines that
were on stage are those of the trail that the handler left alone.

The main statement is `trail_isPrefix_path`.
-/

namespace Typewriter

namespace Performance

/-- The position from which the walk is to be taken up again. -/
def resumesAt (p : Performance) : Nat :=
  if p.live then
    if p.phase = .ended then p.script.length else p.cursor + 1
  else
    match p.pending with
    | some ⟨_, _, _, .walkOn next⟩ => next
    | _ => 0

/-- The event of the end, once it was reached and if it is announced. -/
def completion (p : Performance) : List Event :=
  if p.phase = .ended ∧ p.setup.announcesEnd = true then [.complete] else []

/-- The position of the line on stage. -/
def onStage? (p : Performance) : Option Nat :=
  if p.live = true ∧ (p.phase = .typing ∨ p.phase = .shown) then some p.cursor else none

/-- Take notice of the line on stage, unless it is the last one noticed. -/
def noteLine (lines : List Nat) (p : Performance) : List Nat :=
  match p.onStage? with
  | some position => if lines.getLast? = some position then lines else lines ++ [position]
  | none => lines

/-- The positions of the lines on stage, in their order, each once for as long as it stays. -/
def linesOnStage (stages : List Performance) : List Nat :=
  stages.foldl noteLine []

/-- The trail ends at the line on stage or at the pending pause, unless the script has come to its
end. -/
def EndsOnStage (resolve : Query → Nat) (p : Performance) : Prop :=
  (∃ line, p.OnStage line ∧ p.trail.getLast? = some ⟨p.cursor, .line line⟩ ∧
      resolve ⟨line, p.cursor⟩ ≤ p.cursor) ∨
    (∃ position alarm, p.Paused position alarm ∧
      p.trail.getLast? = some ⟨position, .pause alarm.delay⟩) ∨
    p.Ended

/-- The stages of a run, and the performance at their end, have followed the path. -/
structure Follows (resolve : Query → Nat) (stages : List Performance) (p : Performance) : Prop where
  trail_append : p.trail ++ p.script.pathFrom resolve p.resumesAt = p.script.path resolve
  log_eq : p.log = Visit.eventsAlong p.setup.handler [] p.trail ++ p.completion
  ends : p.EndsOnStage resolve
  lines_eq : linesOnStage stages = p.trail.filterMap (Visit.typedAt? resolve)

variable {p q : Performance} {line : String} {alarm : Alarm} {position : Nat}
  {resolve : Query → Nat} {stages : List Performance}

/-! ## Where the modes stand -/

theorem OnStage.resumesAt_eq (hstage : p.OnStage line) : p.resumesAt = p.cursor + 1 := by
  unfold resumesAt
  rw [if_pos hstage.live_eq, if_neg hstage.phase_ne_ended]

theorem OnStage.onStage?_eq (hstage : p.OnStage line) : p.onStage? = some p.cursor :=
  if_pos ⟨hstage.live_eq, hstage.phase_eq_or⟩

theorem Paused.resumesAt_eq (hpaused : p.Paused position alarm) : p.resumesAt = position + 1 := by
  obtain ⟨edition, serial, delay, purpose⟩ := alarm
  obtain rfl : purpose = .walkOn (position + 1) := hpaused.purpose_eq
  unfold resumesAt
  rw [hpaused.live_eq, hpaused.pending_eq]
  rfl

theorem Paused.onStage?_eq (hpaused : p.Paused position alarm) : p.onStage? = none := by
  refine if_neg fun hstage => ?_
  rw [hpaused.live_eq] at hstage
  exact absurd hstage.1 (by decide)

theorem Ended.resumesAt_eq (hended : p.Ended) : p.resumesAt = p.script.length := by
  unfold resumesAt
  rw [if_pos hended.live_eq, if_pos hended.phase_eq]

theorem Ended.onStage?_eq (hended : p.Ended) : p.onStage? = none := by
  refine if_neg fun hstage => ?_
  rw [hended.phase_eq] at hstage
  exact absurd hstage.2 (by decide)

theorem completion_of_ne (hphase : p.phase ≠ .ended) : p.completion = [] :=
  if_neg fun hended => hphase hended.1

/-! ## Lines on stage -/

theorem linesOnStage_concat (stages : List Performance) (q : Performance) :
    linesOnStage (stages ++ [q]) = noteLine (linesOnStage stages) q := by
  rw [linesOnStage, List.foldl_append]
  rfl

theorem noteLine_of_none (lines : List Nat) (hnone : p.onStage? = none) :
    noteLine lines p = lines := by
  rw [noteLine, hnone]

theorem noteLine_of_mem_getLast? {lines : List Nat} (hsome : p.onStage? = some position)
    (hlast : lines.getLast? = some position) : noteLine lines p = lines := by
  rw [noteLine, hsome]
  exact if_pos hlast

theorem noteLine_of_not_mem {lines : List Nat} (hsome : p.onStage? = some position)
    (hnew : position ∉ lines) : noteLine lines p = lines ++ [position] := by
  rw [noteLine, hsome]
  exact if_neg fun hlast => hnew (List.mem_of_getLast? hlast)

theorem getLast?_filterMap_typedAt? {trail : List Visit} {text : String}
    (hlast : trail.getLast? = some ⟨position, .line text⟩)
    (hnext : resolve ⟨text, position⟩ ≤ position) :
    (trail.filterMap (Visit.typedAt? resolve)).getLast? = some position := by
  obtain ⟨before, rfl⟩ := List.getLast?_eq_some_iff.mp hlast
  have htyped : Visit.typedAt? resolve ⟨position, .line text⟩ = some position :=
    if_neg (Nat.not_lt.mpr hnext)
  rw [List.filterMap_append, List.filterMap_cons_some htyped]
  exact List.getLast?_concat

/-! ## Walking on follows the path -/

theorem Arrival.log_eq (hphase : p.phase ≠ .ended) (harrival : Arrival p position q) :
    q.log = p.log ++ (p.walkFrom position).events ++ q.completion := by
  cases harrival with
  | line at_ line _ _ hline hbegun =>
      rw [completion_of_ne (hbegun.onStage rfl hline).phase_ne_ended, List.append_nil]
      exact hbegun.sameRecord.log_eq
  | pause at_ length _ _ _ heq =>
      subst heq
      have hpaused : ((p.record (p.walkFrom position) false).schedule length
          (.walkOn (at_ + 1))).completion = [] := completion_of_ne hphase
      rw [hpaused, List.append_nil]
      rfl
  | ending _ heq =>
      subst heq
      have hrecord : (p.record (p.walkFrom position) true).phase ≠ .ended := hphase
      cases hend : p.setup.announcesEnd with
      | true =>
          rw [finish_of_announcesEnd hrecord hend]
          simp [completion, record, hend]
      | false =>
          rw [finish_of_not_announcesEnd hrecord hend]
          simp [completion, record, hend]

theorem Place.resumesAt_eq {stop : Stop} (hplace : p.Place stop) :
    p.resumesAt = stop.resume p.script.length := by
  cases hplace with
  | line line hstage => exact hstage.resumesAt_eq
  | pause position alarm hpaused => exact hpaused.resumesAt_eq
  | ending hended => exact hended.resumesAt_eq

theorem mem_pathFrom_of_mem_visits
    (hresolve : ∀ asked query, (p.setup.handler asked query).next = resolve query)
    {visit : Visit} (hvisit : visit ∈ (p.walkFrom position).visits) :
    visit ∈ p.script.pathFrom resolve position := by
  rw [p.script.pathFrom_eq_visits_append hresolve p.asked position]
  exact List.mem_append_left _ hvisit

theorem Arrival.ends (hresolve : ∀ asked query, (p.setup.handler asked query).next = resolve query)
    (hbetween : p.Between position) (harrival : Arrival p position q) :
    q.EndsOnStage resolve := by
  obtain ⟨-, hscript, -, htrail⟩ := harrival.record_eq
  have hcloses : (p.walkFrom position).stop.Closes resolve (p.walkFrom position).visits :=
    p.script.walkFrom_closes hresolve p.asked position
  have hplace := harrival.place hbetween
  generalize (p.walkFrom position).stop = stop at hcloses hplace
  cases hplace with
  | line line hstage =>
      obtain ⟨-, text, hlast, hnext⟩ := hcloses
      have hcue := p.script.getElem?_of_mem_pathFrom position _
        (mem_pathFrom_of_mem_visits hresolve (List.mem_of_getLast? hlast))
      obtain rfl : line = text := by
        have hline := hstage.lineAt?_eq
        rw [hscript, Script.lineAt?_eq_some_iff.mpr hcue] at hline
        exact (Option.some.inj hline).symm
      refine .inl ⟨line, hstage, ?_, hnext⟩
      rw [htrail, List.getLast?_append, hlast, Option.some_or]
  | pause at_ alarm hpaused =>
      obtain ⟨-, _, hnext, hlast⟩ := hcloses
      obtain rfl := Nat.succ.inj hnext
      refine .inr (.inl ⟨at_, alarm, hpaused, ?_⟩)
      rw [htrail, List.getLast?_append, hlast, Option.some_or]
  | ending hended => exact .inr (.inr hended)

/-- A walk adds to the lines on stage the one at which it stops, and no other. -/
theorem Arrival.lines_eq
    (hresolve : ∀ asked query, (p.setup.handler asked query).next = resolve query)
    (hbetween : p.Between position)
    (hpath : p.trail ++ p.script.pathFrom resolve position = p.script.path resolve)
    (hlines : linesOnStage stages = p.trail.filterMap (Visit.typedAt? resolve))
    (harrival : Arrival p position q) :
    linesOnStage (stages ++ [q]) = q.trail.filterMap (Visit.typedAt? resolve) := by
  obtain ⟨-, -, -, htrail⟩ := harrival.record_eq
  have hcloses : (p.walkFrom position).stop.Closes resolve (p.walkFrom position).visits :=
    p.script.walkFrom_closes hresolve p.asked position
  have hplace := harrival.place hbetween
  rw [linesOnStage_concat, htrail, List.filterMap_append, ← hlines]
  generalize (p.walkFrom position).stop = stop at hcloses hplace
  cases hplace with
  | line line hstage =>
      obtain ⟨hvisits, text, hlast, -⟩ := hcloses
      -- The walk is a later piece of the path than the trail, so this line was not on stage before.
      have hnew : q.cursor ∉ linesOnStage stages := by
        rw [hlines]
        intro hmem
        obtain ⟨visit, hvisit, htyped⟩ := List.mem_filterMap.mp hmem
        have hpairwise : (p.script.path resolve).Pairwise
            fun earlier later => earlier.position < later.position :=
          p.script.pairwise_pathFrom 0
        rw [← hpath] at hpairwise
        have hlt := (List.pairwise_append.mp hpairwise).2.2 visit hvisit _
          (mem_pathFrom_of_mem_visits hresolve (List.mem_of_getLast? hlast))
        rw [Visit.position_eq_of_typedAt?_eq_some htyped] at hlt
        exact Nat.lt_irrefl _ hlt
      rw [noteLine_of_not_mem hstage.onStage?_eq hnew, hvisits]
  | pause at_ alarm hpaused =>
      obtain ⟨hvisits, -⟩ := hcloses
      rw [noteLine_of_none _ hpaused.onStage?_eq, hvisits, List.append_nil]
  | ending hended =>
      have hvisits : (p.walkFrom position).visits.filterMap (Visit.typedAt? resolve) = [] := hcloses
      rw [noteLine_of_none _ hended.onStage?_eq, hvisits, List.append_nil]

theorem Arrival.follows
    (hresolve : ∀ asked query, (p.setup.handler asked query).next = resolve query)
    (hbetween : p.Between position)
    (hpath : p.trail ++ p.script.pathFrom resolve position = p.script.path resolve)
    (hlog : p.log = Visit.eventsAlong p.setup.handler [] p.trail)
    (hlines : linesOnStage stages = p.trail.filterMap (Visit.typedAt? resolve))
    (harrival : Arrival p position q) : Follows resolve (stages ++ [q]) q := by
  obtain ⟨hsetup, hscript, -, htrail⟩ := harrival.record_eq
  refine ⟨?_, ?_, harrival.ends hresolve hbetween,
    harrival.lines_eq hresolve hbetween hpath hlines⟩
  · -- The visits move from the path to the trail.
    rw [(harrival.place hbetween).resumesAt_eq, hscript, htrail, List.append_assoc, walkFrom,
      ← p.script.pathFrom_eq_visits_append hresolve p.asked position]
    exact hpath
  · rw [harrival.log_eq hbetween.phase_ne_ended, hsetup, htrail, Visit.eventsAlong_append,
      List.nil_append, hlog, walkFrom, Script.walkFrom_events]
    rfl

/-! ## Every operation follows the path -/

/-- Nothing new comes on stage. -/
theorem Follows.concat_self (hfollows : Follows resolve stages p) :
    Follows resolve (stages ++ [p]) p := by
  refine ⟨hfollows.trail_append, hfollows.log_eq, hfollows.ends, ?_⟩
  rw [linesOnStage_concat, ← hfollows.lines_eq]
  rcases hfollows.ends with ⟨line, hstage, hlast, hnext⟩ | ⟨position, alarm, hpaused, -⟩ | hended
  · refine noteLine_of_mem_getLast? hstage.onStage?_eq ?_
    rw [hfollows.lines_eq]
    exact getLast?_filterMap_typedAt? hlast hnext
  · exact noteLine_of_none _ hpaused.onStage?_eq
  · exact noteLine_of_none _ hended.onStage?_eq

/-- The same line stays on stage, with more of it visible. -/
theorem Follows.concat_sameRecord {text : String} (hfollows : Follows resolve stages p)
    (hp : p.OnStage line) (hq : q.OnStage text) (hcursor : q.cursor = p.cursor)
    (hsame : SameRecord p q) : Follows resolve (stages ++ [q]) q := by
  obtain ⟨hsetup, hscript, -, htrail, hlog⟩ := hsame
  -- Of the three ends of a trail, only the line on stage fits.
  have hlast : p.trail.getLast? = some ⟨p.cursor, .line line⟩ ∧
      resolve ⟨line, p.cursor⟩ ≤ p.cursor := by
    rcases hfollows.ends with ⟨other, hstage, hlast, hnext⟩ | ⟨_, _, hpaused, -⟩ | hended
    · obtain rfl : line = other :=
        Option.some.inj (hp.lineAt?_eq.symm.trans hstage.lineAt?_eq)
      exact ⟨hlast, hnext⟩
    · exact absurd (hp.live_eq.symm.trans hpaused.live_eq) (by decide)
    · exact absurd hended.phase_eq hp.phase_ne_ended
  obtain rfl : text = line := by
    have htext := hq.lineAt?_eq
    rw [hscript, hcursor, hp.lineAt?_eq] at htext
    exact (Option.some.inj htext).symm
  refine ⟨?_, ?_, .inl ⟨text, hq, ?_, ?_⟩, ?_⟩
  · rw [htrail, hscript, hq.resumesAt_eq, hcursor, ← hp.resumesAt_eq]
    exact hfollows.trail_append
  · rw [hlog, hsetup, htrail, hfollows.log_eq, completion_of_ne hp.phase_ne_ended,
      completion_of_ne hq.phase_ne_ended]
  · rw [htrail, hcursor]
    exact hlast.1
  · rw [hcursor]
    exact hlast.2
  · rw [linesOnStage_concat, htrail, ← hfollows.lines_eq]
    refine noteLine_of_mem_getLast? hq.onStage?_eq ?_
    rw [hfollows.lines_eq, hcursor]
    exact getLast?_filterMap_typedAt? hlast.1 hlast.2

theorem Course.follows {operation : Operation}
    (hresolve : ∀ asked query, (p.setup.handler asked query).next = resolve query)
    (hload : operation.isLoad = false) (hfollows : Follows resolve stages p)
    (hcourse : Course p operation q) : Follows resolve (stages ++ [q]) q := by
  have hlog (hphase : p.phase ≠ .ended) :
      p.log = Visit.eventsAlong p.setup.handler [] p.trail := by
    rw [hfollows.log_eq, completion_of_ne hphase, List.append_nil]
  have hpath := hfollows.trail_append
  cases hcourse with
  | unheard => exact hfollows.concat_self
  | stale => exact hfollows.concat_self
  | wholeLine line alarm htyping =>
      exact hfollows.concat_sameRecord (.typing alarm htyping)
        (.shown (shown_showWhole htyping.live_eq htyping.lineAt?_eq)) rfl ⟨rfl, rfl, rfl, rfl, rfl⟩
  | nextChar line alarm _ htyping htyped =>
      obtain ⟨hsetup, hscript, hedition, htrail, hlog⟩ := htyped.sameRecord
      exact hfollows.concat_sameRecord (.typing alarm htyping) (htyping.onStage_of_typed htyped)
        htyped.cursor_eq ⟨hsetup, hscript, hedition, htrail, hlog⟩
  | wentOn line _ hshown harrival =>
      have hbetween := hshown.between
      rw [(OnStage.shown hshown).resumesAt_eq] at hpath
      exact harrival.follows hresolve hbetween hpath (hlog hbetween.phase_ne_ended)
        hfollows.lines_eq
  | resumed position alarm _ hpaused harrival =>
      rw [hpaused.resumesAt_eq] at hpath
      refine harrival.follows ?_ hpaused.between_resumed ?_ ?_ ?_
      · exact hresolve
      · exact hpath
      · exact hlog hpaused.between.phase_ne_ended
      · exact hfollows.lines_eq
  | loaded script => contradiction

/-- Along every run that keeps its script, the path is followed. -/
theorem follows_of_run {setup : Setup} {script : Script} {p₀ : Performance}
    {operations : List Operation}
    (hresolve : ∀ asked query, (setup.handler asked query).next = resolve query)
    (hkeep : ∀ operation ∈ operations, operation.isLoad = false)
    (hstart : start setup script = .ok p₀) (hrun : p₀.run operations = .ok p) :
    Follows resolve (p₀.stages operations) p := by
  have hcoherent : p₀.Coherent := coherent_of_start hstart
  revert hkeep
  refine run_induction
    (motive := fun operations p => (∀ operation ∈ operations, operation.isLoad = false) →
      Follows resolve (p₀.stages operations) p) hcoherent ?nil ?concat hrun
  case nil =>
    intro _
    have hfollows : Follows resolve ([] ++ [p₀]) p₀ :=
      (arrival_of_start hstart).follows hresolve (between_initial setup script) rfl rfl rfl
    exact hfollows
  case concat =>
    intro operations operation r q hrest happly _ hcourse ih hkeep
    obtain ⟨hsetup, -⟩ := setup_script_edition_of_run hstart hrest
    rw [stages_concat hrest happly]
    refine hcourse.follows ?_ (hkeep operation (by simp)) (ih ?_)
    · rw [hsetup]
      exact hresolve
    · intro earlier hearlier
      exact hkeep earlier (List.mem_append_left _ hearlier)

theorem foldl_scriptAfter_of_keep {operations : List Operation}
    (hkeep : ∀ operation ∈ operations, operation.isLoad = false) (script : Script) :
    operations.foldl Operation.scriptAfter script = script := by
  induction operations with
  | nil => rfl
  | cons operation rest ih =>
      have hrest := ih fun later hlater => hkeep later (List.mem_cons_of_mem _ hlater)
      have hload := hkeep operation List.mem_cons_self
      cases operation with
      | advance => exact hrest
      | ring alarm => exact hrest
      | load other => contradiction

/-- Whatever is done to a performance without loading, and whatever alarms are made up, it has come
along a first piece of the path: to each cue at its own position, in the order of the path and at
most once, to none that the handler jumps over, with the events of these cues in this order.  Before
the end, the piece ends at the line on stage, which the handler left alone, or at the pending pause.
At the end, and only there, it is the whole path, and one completion follows. -/
theorem trail_isPrefix_path {setup : Setup} {script : Script} {resolve : Query → Nat}
    {p₀ p : Performance} {operations : List Operation}
    (hresolve : ∀ asked query, (setup.handler asked query).next = resolve query)
    (hkeep : ∀ operation ∈ operations, operation.isLoad = false)
    (hstart : start setup script = .ok p₀) (hrun : p₀.run operations = .ok p) :
    p.trail <+: script.path resolve ∧
      (script.path resolve).Pairwise (fun earlier later => earlier.position < later.position) ∧
      (∀ visit ∈ p.trail, script[visit.position]? = some visit.cue) ∧
      (∀ visit ∈ p.trail, ∀ text, visit.cue = .line text →
        ∀ later ∈ p.trail, visit.position < later.position →
          resolve ⟨text, visit.position⟩ ≤ later.position) ∧
      p.log = Visit.eventsAlong setup.handler [] p.trail ++ p.completion ∧
      linesOnStage (p₀.stages operations) = p.trail.filterMap (Visit.typedAt? resolve) ∧
      (p.phase = .ended → p.Ended ∧ p.trail = script.path resolve) ∧
      (p.phase ≠ .ended →
        (∃ line, p.OnStage line ∧ p.trail.getLast? = some ⟨p.cursor, .line line⟩ ∧
            resolve ⟨line, p.cursor⟩ ≤ p.cursor) ∨
          ∃ position alarm, p.Paused position alarm ∧
            p.trail.getLast? = some ⟨position, .pause alarm.delay⟩) := by
  have hfollows := follows_of_run hresolve hkeep hstart hrun
  obtain ⟨hsetup, hscript, -⟩ := setup_script_edition_of_run hstart hrun
  rw [foldl_scriptAfter_of_keep hkeep] at hscript
  have hpath := hfollows.trail_append
  rw [hscript] at hpath
  have hpiece : p.trail <+: script.path resolve := ⟨_, hpath⟩
  refine ⟨hpiece, Script.pairwise_pathFrom 0, ?_, ?_, ?_, hfollows.lines_eq, ?_, ?_⟩
  · intro visit hvisit
    exact Script.getElem?_of_mem_pathFrom 0 visit (hpiece.subset hvisit)
  · intro visit hvisit text htext later hlater hlt
    exact Script.resolve_le_of_mem_pathFrom 0 visit (hpiece.subset hvisit) text htext later
      (hpiece.subset hlater) hlt
  · rw [← hsetup]
    exact hfollows.log_eq
  · intro hphase
    rcases hfollows.ends with ⟨line, hstage, -⟩ | ⟨position, alarm, hpaused, -⟩ | hended
    · exact absurd hphase hstage.phase_ne_ended
    · exact absurd hphase hpaused.between.phase_ne_ended
    · -- Nothing of the path is left behind the script.
      refine ⟨hended, ?_⟩
      rw [hended.resumesAt_eq, hscript,
        Script.pathFrom_of_length_le (Nat.le_refl script.length), List.append_nil] at hpath
      exact hpath
  · intro hphase
    rcases hfollows.ends with hstage | hpaused | hended
    · exact .inl hstage
    · exact .inr hpaused
    · exact absurd hended.phase_eq hphase

/-- An effect, an alert, a typed line and a pause, with an alarm that was made up. -/
theorem trail_isPrefix_path_of_alert :
    ∃ setup script resolve operations p₀ p,
      (∀ asked query, (setup.handler asked query).next = resolve query) ∧
      (∀ operation ∈ operations, operation.isLoad = false) ∧
      start setup script = .ok p₀ ∧ p₀.run operations = .ok p ∧
      script = [.effect "bell", .line "alert x", .line "Hi", .pause (.ofMillis 5), .line "z"] ∧
      operations = [.ring ⟨0, 7, .ofMillis 5, .walkOn 1⟩, .advance, .advance, .advance] ∧
      p.log = [.effect "bell", .alert "x"] ∧ p.live = false ∧
      p.trail <+: script.path resolve := by
  have hresolve : ∀ asked query, (({ hearsAlerts := true } : Setup).handler asked query).next =
      ((({ hearsAlerts := true } : Setup).book []).reply query).next :=
    fun _ _ => rfl
  have hkeep : ∀ operation ∈ ([.ring ⟨0, 7, .ofMillis 5, .walkOn 1⟩, .advance, .advance, .advance] :
      List Operation), operation.isLoad = false := by decide
  have hruns : ∃ p₀ p, start { hearsAlerts := true }
        [.effect "bell", .line "alert x", .line "Hi", .pause (.ofMillis 5), .line "z"] = .ok p₀ ∧
      p₀.run [.ring ⟨0, 7, .ofMillis 5, .walkOn 1⟩, .advance, .advance, .advance] = .ok p ∧
      p.log = [.effect "bell", .alert "x"] ∧ p.live = false :=
    ⟨_, _, rfl, rfl, by decide, rfl⟩
  obtain ⟨p₀, p, hstart, hrun, hlog, hlive⟩ := hruns
  exact ⟨_, _, _, _, p₀, p, hresolve, hkeep, hstart, hrun, rfl, rfl, hlog, hlive,
    (trail_isPrefix_path hresolve hkeep hstart hrun).1⟩

end Performance

end Typewriter

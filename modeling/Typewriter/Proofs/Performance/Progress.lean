import Typewriter.Proofs.Performance.Reloading
import Typewriter.Proofs.Performance.Traversal

/-!
# Progress

Between two loads a performance only goes forward.  `Progress` says of an earlier and a later
performance that the cursor has not gone back, that while it stayed the visible text only grew, and
that behind the end nothing has changed at all.  Every operation but loading makes progress in this
sense (`Course.progress`), and so do any two stages of a run without loads.  Hence there is one
moment at the most at which the end is reached; `Since` keeps the account of visits and events up to
it.

The main statement is `never_turns_back`.  Nothing is assumed of the handler, which may answer any
positions and events.
-/

namespace Typewriter

namespace Performance

/-- From an earlier performance to a later one of the same script. -/
structure Progress (p q : Performance) : Prop where
  cursor_le : p.cursor ≤ q.cursor
  shown_prefix : q.cursor = p.cursor → p.shown.toList <+: q.shown.toList
  ended_eq : p.phase = .ended → q = p

/-- What has happened since an earlier performance, in which a script was about to start: some
visits with their events, and behind them the announcement of the end, if it was reached. -/
structure Since (earlier p : Performance) : Prop where
  setup_eq : p.setup = earlier.setup
  account : ∃ visits, p.trail = earlier.trail ++ visits ∧
    p.log = earlier.log ++ Visit.eventsAlong earlier.setup.handler earlier.asked visits ++
      p.completion

/-- The stages that follow a performance in which a script was about to start make progress, come
to the end at one moment at the most, stay there, and announce it then and only then. -/
structure EndsOnce (earlier : Performance) (stages : List Performance) : Prop where
  progress : stages.Pairwise Progress
  moment : ∃ moment, ∀ (i : Nat) (stage : Performance), stages[i]? = some stage →
    (stage.phase = .ended ↔ moment ≤ i) ∧ (stage.cursor = stage.script.length ↔ moment ≤ i) ∧
      ∃ visits, stage.trail = earlier.trail ++ visits ∧
        stage.log = earlier.log ++ Visit.eventsAlong earlier.setup.handler earlier.asked visits ++
          if moment ≤ i ∧ earlier.setup.announcesEnd = true then [.complete] else []

variable {p q r earlier : Performance} {line : String} {alarm : Alarm} {position : Nat}

/-! ## One operation -/

namespace Progress

theorem refl (p : Performance) : Progress p p :=
  ⟨Nat.le_refl _, fun _ => List.prefix_rfl, fun _ => rfl⟩

theorem trans (hpq : Progress p q) (hqr : Progress q r) : Progress p r := by
  have hpq_le := hpq.cursor_le
  have hqr_le := hqr.cursor_le
  refine ⟨Nat.le_trans hpq_le hqr_le, ?_, ?_⟩
  · intro hcursor
    -- The cursor came back to where it was, so it never left.
    exact (hpq.shown_prefix (by omega)).trans (hqr.shown_prefix (by omega))
  · intro hended
    have hq : q = p := hpq.ended_eq hended
    subst hq
    exact hqr.ended_eq hended

/-- The cursor moves on, so the text may be another. -/
theorem of_cursor_lt (hlt : p.cursor < q.cursor) (hphase : p.phase ≠ .ended) : Progress p q :=
  ⟨Nat.le_of_lt hlt, fun heq => absurd heq (Nat.ne_of_gt hlt), fun hended => absurd hended hphase⟩

/-- The cursor stays, and the text grows. -/
theorem of_cursor_eq (hcursor : q.cursor = p.cursor) (hshown : p.shown.toList <+: q.shown.toList)
    (hphase : p.phase ≠ .ended) : Progress p q :=
  ⟨Nat.le_of_eq hcursor.symm, fun _ => hshown, fun hended => absurd hended hphase⟩

end Progress

theorem Typing.phase_ne_ended (htyping : p.Typing line alarm) : p.phase ≠ .ended :=
  (OnStage.typing alarm htyping).phase_ne_ended

theorem Typing.progress_showWhole (htyping : p.Typing line alarm) :
    Progress p (p.showWhole line) := by
  refine .of_cursor_eq rfl ?_ htyping.phase_ne_ended
  rw [htyping.toList_shown]
  exact List.take_prefix _ _

theorem Typing.progress_of_typed (htyping : p.Typing line alarm)
    (htyped : Typed p.cancel line p.cursor q) : Progress p q := by
  cases htyped with
  | whole _ heq =>
      rw [heq]
      exact htyping.progress_showWhole
  | char c _ _ _ _ heq =>
      rw [heq]
      refine .of_cursor_eq rfl ?_ htyping.phase_ne_ended
      show p.shown.toList <+: (p.shown.push c).toList
      rw [String.toList_push]
      exact List.prefix_append _ _

/-- A walk from behind the cursor leads to a line behind it, into a pause that leaves the stage as
it is, or behind the last cue. -/
theorem Arrival.progress (hlt : p.cursor < position) (hinside : p.cursor < p.script.length)
    (hphase : p.phase ≠ .ended) (harrival : Arrival p position q) : Progress p q := by
  cases harrival with
  | line at_ line _ hle _ hbegun =>
      refine .of_cursor_lt ?_ hphase
      rw [hbegun.cursor_eq]
      exact Nat.lt_of_lt_of_le hlt hle
  | pause at_ length _ _ _ heq =>
      rw [heq]
      exact .of_cursor_eq rfl List.prefix_rfl hphase
  | ending _ heq =>
      refine .of_cursor_lt ?_ hphase
      have hrecord : (p.record (p.walkFrom position) true).phase ≠ .ended := hphase
      rw [heq]
      cases hend : p.setup.announcesEnd with
      | true =>
          rw [finish_of_announcesEnd hrecord hend]
          exact hinside
      | false =>
          rw [finish_of_not_announcesEnd hrecord hend]
          exact hinside

theorem Paused.cursor_lt_next (hpaused : p.Paused position alarm) : p.cursor < position + 1 := by
  cases hpaused.between with
  | fresh _ hcursor => omega
  | behind _ hcursor => omega

theorem Course.progress {operation : Operation} (hload : operation.isLoad = false)
    (hcourse : Course p operation q) : Progress p q := by
  cases hcourse with
  | unheard => exact .refl p
  | stale => exact .refl p
  | wholeLine line alarm htyping => exact htyping.progress_showWhole
  | nextChar line alarm _ htyping htyped => exact htyping.progress_of_typed htyped
  | wentOn line _ hshown harrival =>
      exact harrival.progress (Nat.lt_succ_self _) (lt_length_of_lineAt?_eq_some hshown.lineAt?_eq)
        hshown.between.phase_ne_ended
  | resumed position alarm _ hpaused harrival =>
      have hcancel : Progress p.cancel q :=
        harrival.progress hpaused.cursor_lt_next hpaused.cursor_lt hpaused.between.phase_ne_ended
      exact ⟨hcancel.cursor_le, hcancel.shown_prefix,
        fun hended => absurd hended hpaused.between.phase_ne_ended⟩
  | loaded script => contradiction

/-! ## Visits and events since the start of a script -/

/-- Nothing was visited yet, and the end was not reached. -/
theorem since_of_unmoved (hphase : p.phase = .typing) (hsetup : p.setup = earlier.setup)
    (htrail : p.trail = earlier.trail) (hlog : p.log = earlier.log) : Since earlier p := by
  have hphase' : p.phase ≠ .ended := by
    rw [hphase]
    decide
  refine ⟨hsetup, [], by rw [htrail, List.append_nil], ?_⟩
  rw [hlog, completion_of_ne hphase']
  simp [Visit.eventsAlong]

theorem Since.of_sameRecord (hsince : Since earlier p) (hsame : SameRecord p q)
    (hcompletion : q.completion = p.completion) : Since earlier q := by
  obtain ⟨hsetup, visits, htrail, hlog⟩ := hsince
  exact ⟨hsame.setup_eq.trans hsetup, visits, hsame.trail_eq.trans htrail,
    by rw [hsame.log_eq, hlog, hcompletion]⟩

/-- A walk adds its visits and events, and the completion if it comes to the end. -/
theorem Arrival.since (hphase : p.phase ≠ .ended) (hsince : Since earlier p)
    (harrival : Arrival p position q) : Since earlier q := by
  obtain ⟨hsetup, visits, htrail, hlog⟩ := hsince
  obtain ⟨hsetup', -, -, htrail'⟩ := harrival.record_eq
  have hasked : p.asked = earlier.asked ++ visits.filterMap Visit.query? := by
    rw [asked, htrail, List.filterMap_append]
    rfl
  have hevents : (p.walkFrom position).events =
      Visit.eventsAlong earlier.setup.handler (earlier.asked ++ visits.filterMap Visit.query?)
        (p.walkFrom position).visits := by
    rw [← hasked, ← hsetup]
    exact p.script.walkFrom_events p.setup.handler p.asked position
  refine ⟨hsetup'.trans hsetup, visits ++ (p.walkFrom position).visits, ?_, ?_⟩
  · rw [htrail', htrail, List.append_assoc]
  · rw [completion_of_ne hphase, List.append_nil] at hlog
    rw [harrival.log_eq hphase, hlog, Visit.eventsAlong_append, hevents]
    simp only [List.append_assoc]

theorem Course.since {operation : Operation} (hload : operation.isLoad = false)
    (hsince : Since earlier p) (hcourse : Course p operation q) : Since earlier q := by
  cases hcourse with
  | unheard => exact hsince
  | stale => exact hsince
  | wholeLine line alarm htyping =>
      refine hsince.of_sameRecord ⟨rfl, rfl, rfl, rfl, rfl⟩ ?_
      rw [completion_of_ne htyping.phase_ne_ended]
      rfl
  | nextChar line alarm _ htyping htyped =>
      obtain ⟨hsetup, hscript, hedition, htrail, hlog⟩ := htyped.sameRecord
      refine hsince.of_sameRecord ⟨hsetup, hscript, hedition, htrail, hlog⟩ ?_
      rw [completion_of_ne htyping.phase_ne_ended,
        completion_of_ne (htyping.onStage_of_typed htyped).phase_ne_ended]
  | wentOn line _ hshown harrival => exact harrival.since hshown.between.phase_ne_ended hsince
  | resumed position alarm _ hpaused harrival =>
      have hphase : p.cancel.phase ≠ .ended := hpaused.between.phase_ne_ended
      exact harrival.since hphase (hsince.of_sameRecord ⟨rfl, rfl, rfl, rfl, rfl⟩ rfl)
  | loaded script => contradiction

/-! ## Runs without loads -/

/-- All stages of a run without loads make progress to its last. -/
theorem progress_of_run {operations : List Operation}
    (hkeep : ∀ operation ∈ operations, operation.isLoad = false) (hcoherent : p.Coherent)
    (hrun : p.run operations = .ok q) :
    (∀ stage ∈ p.stages operations, Progress stage q) ∧
      (p.stages operations).Pairwise Progress := by
  revert hkeep
  refine run_induction
    (motive := fun operations q => (∀ operation ∈ operations, operation.isLoad = false) →
      (∀ stage ∈ p.stages operations, Progress stage q) ∧
        (p.stages operations).Pairwise Progress) hcoherent ?nil ?concat hrun
  case nil =>
    intro _
    simp [stages, Progress.refl]
  case concat =>
    intro operations operation r q hrest happly _ hcourse ih hkeep
    obtain ⟨hprogress, hpairwise⟩ :=
      ih fun earlier hearlier => hkeep earlier (List.mem_append_left _ hearlier)
    have hstep : Progress r q := hcourse.progress (hkeep operation (by simp))
    rw [stages_concat hrest happly]
    refine ⟨?_, List.pairwise_append.mpr ⟨hpairwise, List.pairwise_singleton _ _, ?_⟩⟩
    · intro stage hstage
      rcases List.mem_append.mp hstage with hstage | hstage
      · exact (hprogress stage hstage).trans hstep
      · rw [List.mem_singleton.mp hstage]
        exact .refl q
    · intro stage hstage last hlast
      rw [List.mem_singleton.mp hlast]
      exact (hprogress stage hstage).trans hstep

theorem since_of_run {operations : List Operation}
    (hkeep : ∀ operation ∈ operations, operation.isLoad = false) (hcoherent : p.Coherent)
    (hsince : Since earlier p) (hrun : p.run operations = .ok q) :
    Since earlier q ∧ ∀ stage ∈ p.stages operations, Since earlier stage := by
  revert hkeep
  refine run_induction
    (motive := fun operations q => (∀ operation ∈ operations, operation.isLoad = false) →
      Since earlier q ∧ ∀ stage ∈ p.stages operations, Since earlier stage) hcoherent ?nil ?concat
    hrun
  case nil =>
    intro _
    simpa [stages] using hsince
  case concat =>
    intro operations operation r q hrest happly _ hcourse ih hkeep
    obtain ⟨hr, hstages⟩ := ih fun earlier hearlier =>
      hkeep earlier (List.mem_append_left _ hearlier)
    have hq : Since earlier q := hcourse.since (hkeep operation (by simp)) hr
    refine ⟨hq, fun stage hstage => ?_⟩
    rw [stages_concat hrest happly, List.mem_append, List.mem_singleton] at hstage
    rcases hstage with hstage | rfl
    · exact hstages stage hstage
    · exact hq

/-- Stages that make progress are behind the end from one moment on. -/
theorem exists_moment {stages : List Performance} (hprogress : stages.Pairwise Progress) :
    ∃ moment, ∀ (i : Nat) (stage : Performance), stages[i]? = some stage →
      (stage.phase = .ended ↔ moment ≤ i) := by
  induction stages with
  | nil => exact ⟨0, by simp⟩
  | cons first rest ih =>
      obtain ⟨hfirst, hrest⟩ := List.pairwise_cons.mp hprogress
      by_cases hended : first.phase = .ended
      · refine ⟨0, fun i stage hstage => ⟨fun _ => Nat.zero_le i, fun _ => ?_⟩⟩
        cases i with
        | zero =>
            rw [List.getElem?_cons_zero, Option.some.injEq] at hstage
            rw [← hstage]
            exact hended
        | succ i =>
            rw [List.getElem?_cons_succ] at hstage
            rw [(hfirst stage (List.mem_of_getElem? hstage)).ended_eq hended]
            exact hended
      · obtain ⟨moment, hmoment⟩ := ih hrest
        refine ⟨moment + 1, fun i stage hstage => ?_⟩
        cases i with
        | zero =>
            rw [List.getElem?_cons_zero, Option.some.injEq] at hstage
            subst hstage
            exact ⟨fun h => absurd h hended, fun h => by omega⟩
        | succ i =>
            rw [List.getElem?_cons_succ] at hstage
            rw [hmoment i stage hstage]
            omega

/-- From the start of a script on, a run without loads comes to the end at most once. -/
theorem endsOnce_of_run {operations : List Operation}
    (hkeep : ∀ operation ∈ operations, operation.isLoad = false) (hcoherent : p.Coherent)
    (hsince : Since earlier p) (hrun : p.run operations = .ok q) :
    EndsOnce earlier (p.stages operations) := by
  obtain ⟨-, hprogress⟩ := progress_of_run hkeep hcoherent hrun
  obtain ⟨moment, hmoment⟩ := exists_moment hprogress
  refine ⟨hprogress, moment, fun i stage hstage => ?_⟩
  have hmem : stage ∈ p.stages operations := List.mem_of_getElem? hstage
  obtain ⟨hsetup, visits, htrail, hlog⟩ := (since_of_run hkeep hcoherent hsince hrun).2 stage hmem
  have hended : stage.phase = .ended ↔ moment ≤ i := hmoment i stage hstage
  have hcursor : stage.cursor = stage.script.length ↔ stage.phase = .ended :=
    (coherent_of_mem_stages hcoherent hrun stage hmem).cursor_le.2
  refine ⟨hended, hcursor.trans hended, visits, htrail, ?_⟩
  rw [hlog, completion, hsetup]
  simp only [hended]

/-- Whatever was done to a performance, no advance and no alarm moves its cursor back, changes what
is visible without moving it on or adding to it, or does anything at all behind the end.  So from
the start of a script, be it the first or one that was loaded, until another one is loaded, the end
is reached at one moment at the most and never left; the cursor is behind the script exactly from
then on; and the completion is the one event that is added then, if the end is announced, while all
other events are those of the cues that were visited. -/
theorem never_turns_back {setup : Setup} {script : Script} {p₀ p : Performance}
    {operations : List Operation} (hstart : start setup script = .ok p₀)
    (hrun : p₀.run operations = .ok p) :
    (∀ operation q, operation.isLoad = false → p.apply operation = .ok q → Progress p q) ∧
      ((∀ operation ∈ operations, operation.isLoad = false) →
        EndsOnce { setup, script } (p₀.stages operations)) ∧
      ∀ other r later q, p.load other = .ok r →
        (∀ operation ∈ later, operation.isLoad = false) → r.run later = .ok q →
          EndsOnce p (r.stages later) := by
  have hcoherent₀ : p₀.Coherent := coherent_of_start hstart
  have hcoherent : p.Coherent := coherent_of_run hcoherent₀ hrun
  refine ⟨fun operation q hload happly => (hcoherent.course happly).progress hload, ?_, ?_⟩
  · intro hkeep
    have hsince : Since { setup, script } p₀ :=
      (arrival_of_start hstart).since (between_initial setup script).phase_ne_ended
        (since_of_unmoved rfl rfl rfl rfl)
    exact endsOnce_of_run hkeep hcoherent₀ hsince hrun
  · intro other r later q hload hkeep hlater
    have harrival : Arrival (p.reload other) 0 r := arrival_of_walkOn hload
    have hbetween : (p.reload other).Between 0 := p.between_reload other
    have hsince : Since p r :=
      harrival.since hbetween.phase_ne_ended (since_of_unmoved rfl rfl rfl rfl)
    exact endsOnce_of_run hkeep (harrival.coherent hbetween) hsince hlater

/-- A pause behind a line runs out, which is the end; then a script with an effect is loaded and
taken to its end twice. -/
theorem never_turns_back_of_pause :
    ∃ setup script p₀ p q r last,
      setup = { tempo := { interval := 0 }, announcesEnd := true } ∧
      script = [.line "a", .pause (.ofMillis 5)] ∧
      start setup script = .ok p₀ ∧ p₀.run [.advance] = .ok p ∧
      p.apply (.ring ⟨0, 0, .ofMillis 5, .walkOn 2⟩) = .ok q ∧ q.phase = .ended ∧
      p.load [.effect "bell", .line "b"] = .ok r ∧ r.run [.advance, .advance] = .ok last ∧
      last.log = [.effect "bell", .complete] ∧ Progress p q ∧
      EndsOnce { setup, script } (p₀.stages [.advance]) ∧
      EndsOnce p (r.stages [.advance, .advance]) := by
  have hruns : ∃ setup script p₀ p q r last,
      setup = { tempo := { interval := 0 }, announcesEnd := true } ∧
      script = [.line "a", .pause (.ofMillis 5)] ∧
      start setup script = .ok p₀ ∧ p₀.run [.advance] = .ok p ∧
      p.apply (.ring ⟨0, 0, .ofMillis 5, .walkOn 2⟩) = .ok q ∧ q.phase = .ended ∧
      p.load [.effect "bell", .line "b"] = .ok r ∧ r.run [.advance, .advance] = .ok last ∧
      last.log = [.effect "bell", .complete] :=
    ⟨_, _, _, _, _, _, _, rfl, rfl, rfl, rfl, rfl, rfl, rfl, rfl, rfl⟩
  obtain ⟨setup, script, p₀, p, q, r, last, hsetup, hscript, hstart, hrun, happly, hended, hload,
    hlast, hlog⟩ := hruns
  obtain ⟨hprogress, hfirst, hloaded⟩ := never_turns_back hstart hrun
  exact ⟨setup, script, p₀, p, q, r, last, hsetup, hscript, hstart, hrun, happly, hended, hload,
    hlast, hlog, hprogress _ q rfl happly, hfirst (by decide),
    hloaded _ r _ last hload (by decide) hlast⟩

end Performance

end Typewriter

import Typewriter.Proofs.Performance.Unbroken
import Typewriter.Proofs.Playback.Strokes

/-!
# The end of the clock

The clock ends at `2 ^ 63` seconds, and durations go up to `2 ^ 64` seconds.  An alarm is armed for
the present reading of the clock plus its delay, so a script can ask for a pause that no clock can
wait for, and there the playback breaks off (`start_eq_clockExceeded`).  The delays of typed
characters are no danger: whatever a command line asks for, they are short against the clock.

`PlayableUntil` says that all alarms can be armed until the clock comes to some reading, and
`WithinClock` that the alarms so far could be armed.  The main statement is `pauses_until_clockEnd`.
If the pauses of a script can be armed until the clock comes to some reading, and so can those of
the scripts that are loaded meanwhile, then the playback gets there, whatever is done.  And where a
playback has come to a pause and has not broken off, the clock could wait for it from the start.
-/

namespace Typewriter

/-! ## Delays that the clock can wait for -/

/-- Until the clock comes to some reading, all pauses of a script can be armed. -/
def Script.PlayableUntil (script : Script) (latest : Nat) : Prop :=
  ∀ length, .pause length ∈ script → length.ArmableAt latest

/-- Until then, the pauses that a request brings up can be armed. -/
def Request.PlayableUntil (latest : Nat) : Request → Prop
  | .advance => True
  | .load script => script.PlayableUntil latest

namespace Performance

/-- Until then, all alarms can be armed that a performance schedules without another script. -/
structure PlayableUntil (p : Performance) (latest : Nat) : Prop where
  fits : p.setup.tempo.Fits
  delay_armable : ∀ c delay, p.setup.tempo.Allows c delay → delay.ArmableAt latest
  script_playable : p.script.PlayableUntil latest

variable {p q : Performance} {alarm : Alarm} {latest position : Nat}

theorem PlayableUntil.armable_of_pending (hplayable : p.PlayableUntil latest)
    (hcoherent : p.Coherent) (hpending : p.pending = some alarm) :
    alarm.delay.ArmableAt latest := by
  rcases hcoherent.typing_or_paused hpending with ⟨line, htyping⟩ | ⟨position, hpaused⟩
  · obtain ⟨c, -, hallows⟩ := htyping.allows
    exact hplayable.delay_armable c alarm.delay hallows
  · exact hplayable.script_playable alarm.delay (List.mem_of_getElem? hpaused.pause_eq)

theorem PlayableUntil.course {operation : Operation} (hplayable : p.PlayableUntil latest)
    (hcourse : Course p operation q)
    (hscript : (operation.scriptAfter p.script).PlayableUntil latest) :
    q.PlayableUntil latest := by
  obtain ⟨hsetup, hscriptAfter, -⟩ := hcourse.setup_script_edition
  exact ⟨hsetup ▸ hplayable.fits, hsetup ▸ hplayable.delay_armable, hscriptAfter ▸ hscript⟩

theorem PlayableUntil.start {setup : Setup} {script : Script}
    (hplayable : ({ setup, script } : Performance).PlayableUntil latest)
    (hstart : start setup script = .ok p) : p.PlayableUntil latest := by
  obtain ⟨hsetup, hscript, -⟩ := (arrival_of_start hstart).record_eq
  exact ⟨hsetup ▸ hplayable.fits, hsetup ▸ hplayable.delay_armable,
    hscript ▸ hplayable.script_playable⟩

/-- The delays that a command line asks for are short against the clock. -/
theorem playableUntil_of_areRead {options : Options} (hrests : Options.AreRead options.rests)
    (hsetup : p.setup.tempo = options.setup.tempo)
    (hlatest : latest + 3 * Options.longestMillis < Playback.clockEnd)
    (hscript : p.script.PlayableUntil latest) : p.PlayableUntil latest := by
  refine ⟨hsetup ▸ Options.fits_of_areRead hrests, ?_, hscript⟩
  rintro c delay ⟨draw, hdelay⟩
  rw [hsetup] at hdelay
  obtain ⟨sum, hsum, hnanos⟩ :=
    Tempo.exists_delay?_of_le (Options.nanos_add_le_maxNanos hrests c _) false
  obtain rfl : delay = sum := Option.some.inj (hdelay.symm.trans hsum)
  rw [if_neg Bool.false_ne_true] at hnanos
  have hsum_le : delay.nanos ≤ 3 * Options.longestMillis :=
    hnanos ▸ Options.nanos_add_le hrests c _
  exact Nat.lt_of_le_of_lt (Nat.add_le_add_left hsum_le _) hlatest

/-! ## Pauses that were come to -/

/-- All pauses that a performance has come to satisfy a condition. -/
def PausesMeet (p : Performance) (condition : Duration → Prop) : Prop :=
  ∀ visit ∈ p.trail, ∀ length, visit.cue = .pause length → condition length

variable {condition : Duration → Prop}

/-- Walking on comes to no more than one pause, and that is pending then. -/
theorem PausesMeet.arrival (hpauses : p.PausesMeet condition) (harrival : Arrival p position q)
    (hpending : ∀ alarm, q.pending = some alarm → condition alarm.delay) :
    q.PausesMeet condition := by
  intro visit hvisit length hpause
  rw [harrival.record_eq.2.2.2, List.mem_append] at hvisit
  rcases hvisit with hbefore | hwalked
  · exact hpauses visit hbefore length hpause
  · obtain ⟨next, hstop⟩ : ∃ next, (p.walkFrom position).stop = .pause length next :=
      Script.stop_eq_of_pause_visited _ _ _ _ visit hwalked length hpause
    cases harrival with
    | line _ _ hline => rw [hline] at hstop; contradiction
    | ending hending => rw [hending] at hstop; contradiction
    | pause at_ length' hstop' _ _ heq =>
        obtain ⟨rfl, -⟩ := Stop.pause.inj (hstop'.symm.trans hstop)
        exact hpending _ (by rw [heq]; rfl)

theorem PausesMeet.course {operation : Operation} (hpauses : p.PausesMeet condition)
    (hcourse : Course p operation q)
    (hpending : ∀ alarm, q.pending = some alarm → condition alarm.delay) :
    q.PausesMeet condition := by
  cases hcourse with
  | unheard => exact hpauses
  | stale => exact hpauses
  | wholeLine => exact hpauses
  | nextChar _ _ _ _ htyped =>
      have htrail : q.trail = p.trail := htyped.sameRecord.trail_eq
      unfold PausesMeet
      rw [htrail]
      exact hpauses
  | wentOn _ _ _ harrival => exact hpauses.arrival harrival hpending
  | resumed _ _ _ _ harrival =>
      have hcancel : p.cancel.PausesMeet condition := hpauses
      exact hcancel.arrival harrival hpending
  | loaded script _ harrival =>
      have hreload : (p.reload script).PausesMeet condition := hpauses
      exact hreload.arrival harrival hpending

/-- From some reading on, the clock can wait for the pending alarm, and for all pauses that were
come to. -/
structure WithinClock (p : Performance) (origin : Nat) : Prop where
  pending_armable : ∀ alarm, p.pending = some alarm → alarm.delay.ArmableAt origin
  pauses_armable : p.PausesMeet (·.ArmableAt origin)

end Performance

namespace Playback

open Performance

variable {b next : Playback} {armed : Armed} {time origin latest : Nat}

/-! ## Playing until some reading of the clock -/

theorem exists_continueWith {p : Performance} (hcoherent : p.Coherent)
    (hplayable : p.PlayableUntil latest) (hclock : b.clock ≤ latest) :
    ∃ next, b.continueWith (.ok p) = .ok next := by
  have hperformance := (publish_eq { b with performance := p }).1
  refine exists_arm fun alarm hpending => ?_
  rw [hperformance] at hpending
  rw [clock_publish]
  exact (hplayable.armable_of_pending hcoherent hpending).mono hclock

theorem Attentive.exists_ringAt (hattentive : b.Attentive) (harmed : b.armed = some armed)
    (hplayable : b.performance.PlayableUntil latest)
    (htime : b.origin + time * nanosPerMilli ≤ latest) :
    ∃ next, b.ringAt time armed = .ok next ∧ next.performance.PlayableUntil latest := by
  obtain ⟨p, hring⟩ := exists_ring hplayable.fits armed.alarm
  have hcourse := hattentive.coherent.course_ring hring
  have hp : p.PlayableUntil latest := hplayable.course hcourse hplayable.script_playable
  obtain ⟨next, hnext⟩ := exists_continueWith (b := { b with now := time, armed := none })
    (hcourse.coherent hattentive.coherent) hp htime
  rw [← hring] at hnext
  obtain ⟨-, -, hsame, -⟩ := hattentive.ringAt harmed hnext
  obtain rfl : p = next.performance := Except.ok.inj (hring.symm.trans hsame)
  exact ⟨next, hnext, hp⟩

/-- An alarm that is due rings before the clock gets where it is going. -/
theorem clock_max_le (hclock : b.clock ≤ latest) (hdue : armed.due ≤ time)
    (htime : b.origin + time * nanosPerMilli ≤ latest) :
    b.origin + max b.now armed.due * nanosPerMilli ≤ latest := by
  rcases Nat.le_total b.now armed.due with hle | hle
  · rw [Nat.max_eq_right hle]
    exact Nat.le_trans (Nat.add_le_add_left (Nat.mul_le_mul_right _ hdue) _) htime
  · rw [Nat.max_eq_left hle]
    exact hclock

theorem Attentive.exists_runUntil (hattentive : b.Attentive)
    (hplayable : b.performance.PlayableUntil latest) (hclock : b.clock ≤ latest)
    (htime : b.origin + time * nanosPerMilli ≤ latest) :
    ∃ next, b.runUntil time = .ok next ∧ next.performance.PlayableUntil latest := by
  refine runUntil_induction time
    (motive := fun b result => b.performance.PlayableUntil latest → b.clock ≤ latest →
      b.origin + time * nanosPerMilli ≤ latest →
      ∃ next, result = .ok next ∧ next.performance.PlayableUntil latest)
    ?idle ?broken ?rung b hattentive hplayable hclock htime
  case idle =>
    intro b _ _ hplayable _ _
    exact ⟨_, rfl, hplayable⟩
  case broken =>
    intro b armed fault hattentive harmed hdue hring hplayable hclock htime
    obtain ⟨next, hnext, -⟩ :=
      hattentive.exists_ringAt harmed hplayable (clock_max_le hclock hdue htime)
    rw [hring] at hnext
    contradiction
  case rung =>
    intro b armed rung result hattentive harmed hdue hring ih hplayable hclock htime
    have hmax := clock_max_le hclock hdue htime
    obtain ⟨next, hnext, hplayable'⟩ := hattentive.exists_ringAt harmed hplayable hmax
    obtain rfl : rung = next := Except.ok.inj (hring.symm.trans hnext)
    have horigin : rung.origin = b.origin := origin_of_ringAt hring
    obtain ⟨-, hrung, -⟩ := hattentive.ringAt harmed hring
    refine ih hplayable' ?_ (horigin ▸ htime)
    rw [clock, horigin, hrung]
    exact hmax

theorem Attentive.exists_request (hattentive : b.Attentive)
    (hplayable : b.performance.PlayableUntil latest) (hclock : b.clock ≤ latest) {request : Request}
    (hrequest : request.PlayableUntil latest) :
    ∃ next, b.request request = .ok next ∧ next.performance.PlayableUntil latest := by
  obtain ⟨p, happly⟩ := exists_apply hplayable.fits request.operation
  have hcourse := hattentive.coherent.course happly
  have hscript : (request.operation.scriptAfter b.performance.script).PlayableUntil latest := by
    cases request with
    | advance => exact hplayable.script_playable
    | load script => exact hrequest
  have hcoherent := hcourse.coherent hattentive.coherent
  have hp : p.PlayableUntil latest := hplayable.course hcourse hscript
  obtain ⟨went, hwent⟩ := exists_continueWith hcoherent hp hclock
  obtain ⟨hattentive', rfl, hsame⟩ := attentive_of_continueWith hcoherent hwent
  have hlate : went.clock ≤ latest := by
    rw [clock, origin_of_continueWith hwent, hsame]
    exact hclock
  obtain ⟨next, hnext, hplayable'⟩ := hattentive'.exists_runUntil hp hlate hlate
  refine ⟨next, ?_, hplayable'⟩
  unfold Playback.request
  rw [happly, hwent]
  exact hnext

theorem clock_opening (p : Performance) (origin : Nat) : (opening p origin).clock = origin := by
  rw [clock, opening, Nat.zero_mul, Nat.add_zero]

theorem exists_start {setup : Setup} {script : Script}
    (hplayable : ({ setup, script } : Performance).PlayableUntil latest)
    (horigin : origin ≤ latest) :
    ∃ b, start setup script origin = .ok b ∧ b.performance.PlayableUntil latest := by
  obtain ⟨p, hstart⟩ := exists_walkOn hplayable.fits 0
  have hcoherent : p.Coherent := coherent_of_start hstart
  have hp : p.PlayableUntil latest := hplayable.start hstart
  have hclock : (opening p origin).clock ≤ latest := by
    rw [clock_opening]
    exact horigin
  obtain ⟨armed, harm⟩ := exists_arm (b := opening p origin) fun alarm hpending =>
    (hp.armable_of_pending hcoherent hpending).mono hclock
  have hattentive : armed.Attentive := attentive_of_arm hcoherent rfl harm
  have harmed := eq_of_arm harm
  have hplayable' : armed.performance.PlayableUntil latest := by
    rw [harmed]
    exact hp
  have hlate : armed.clock ≤ latest := by
    rw [harmed]
    exact hclock
  obtain ⟨b, hb, hlast⟩ := hattentive.exists_runUntil hplayable' hlate hlate
  refine ⟨b, ?_, hlast⟩
  have hperformance : Performance.start setup script = .ok p := hstart
  unfold start
  rw [hperformance]
  dsimp only
  rw [harm]
  exact hb

/-! ## Pauses that were waited for -/

theorem armableAt_of_arm (harm : b.arm = .ok next)
    (harmed : ∀ armed, b.armed = some armed → armed.alarm.delay.ArmableAt b.origin)
    (alarm : Alarm) (hpending : b.performance.pending = some alarm) :
    alarm.delay.ArmableAt b.origin := by
  unfold arm at harm
  rw [hpending] at harm
  dsimp only at harm
  split at harm
  case isTrue hsame =>
    obtain ⟨armed, hsome, rfl⟩ := Option.map_eq_some_iff.mp hsame
    exact harmed armed hsome
  case isFalse =>
    split at harm
    · rename_i harmable
      exact harmable.mono (Nat.le_add_right b.origin _)
    · contradiction

theorem armableAt_of_continueWith {p : Performance} (hnext : b.continueWith (.ok p) = .ok next)
    (harmed : ∀ armed, b.armed = some armed → armed.alarm.delay.ArmableAt b.origin)
    (alarm : Alarm) (hpending : p.pending = some alarm) : alarm.delay.ArmableAt b.origin := by
  obtain ⟨hperformance, -, hsame, -⟩ := publish_eq { b with performance := p }
  have harmable := armableAt_of_arm hnext
  rw [hsame, origin_publish] at harmable
  exact harmable harmed alarm (hperformance ▸ hpending)

theorem withinClock_of_continueWith {p : Performance}
    (harmed : ∀ armed, b.armed = some armed → armed.alarm.delay.ArmableAt b.origin)
    (hpauses : (∀ alarm, p.pending = some alarm → alarm.delay.ArmableAt b.origin) →
      p.PausesMeet (·.ArmableAt b.origin))
    (hnext : b.continueWith (.ok p) = .ok next) : p.WithinClock next.origin := by
  have hpending := armableAt_of_continueWith hnext harmed
  rw [origin_of_continueWith hnext]
  exact ⟨hpending, hpauses hpending⟩

theorem Attentive.withinClock_of_ringAt (hattentive : b.Attentive)
    (harmed : b.armed = some armed) (hwithin : b.performance.WithinClock b.origin)
    (hnext : b.ringAt time armed = .ok next) : next.performance.WithinClock next.origin := by
  obtain ⟨-, -, hring, -⟩ := hattentive.ringAt harmed hnext
  have hcourse := hattentive.coherent.course_ring hring
  unfold Playback.ringAt at hnext
  rw [hring] at hnext
  refine withinClock_of_continueWith (b := { b with now := time, armed := none }) ?_
    (hwithin.pauses_armable.course hcourse) hnext
  intro _ hsome
  contradiction

theorem Attentive.withinClock_of_runUntil (hattentive : b.Attentive)
    (hwithin : b.performance.WithinClock b.origin) (hnext : b.runUntil time = .ok next) :
    next.performance.WithinClock next.origin := by
  have hsame := origin_of_runUntil hnext
  rw [hsame]
  refine runUntil_induction time
    (motive := fun b result => b.performance.WithinClock b.origin →
      ∀ next, result = .ok next → next.performance.WithinClock b.origin)
    ?idle ?broken ?rung b hattentive hwithin next hnext
  case idle =>
    intro b _ _ hwithin next hnext
    rw [← Except.ok.inj hnext]
    exact hwithin
  case broken =>
    intro _ _ _ _ _ _ _ _ next hnext
    contradiction
  case rung =>
    intro b armed rung result hattentive harmed _ hring ih hwithin
    rw [← origin_of_ringAt hring]
    exact ih (hattentive.withinClock_of_ringAt harmed hwithin hring)

theorem Attentive.withinClock_of_request (hattentive : b.Attentive)
    (hwithin : b.performance.WithinClock b.origin) {request : Request}
    (hnext : b.request request = .ok next) : next.performance.WithinClock next.origin := by
  obtain ⟨went, p, happly, hwent, hslept⟩ := exists_of_request hnext
  have hcourse := hattentive.coherent.course happly
  have hp : p.WithinClock went.origin := by
    refine withinClock_of_continueWith (fun armed harmed => ?_)
      (hwithin.pauses_armable.course hcourse) hwent
    exact hwithin.pending_armable armed.alarm (hattentive.pending_eq harmed)
  obtain ⟨hattentive', rfl, -⟩ :=
    attentive_of_continueWith (hcourse.coherent hattentive.coherent) hwent
  exact hattentive'.withinClock_of_runUntil hp hslept

theorem withinClock_of_start {setup : Setup} {script : Script}
    (hstart : start setup script origin = .ok b) : b.performance.WithinClock b.origin := by
  obtain ⟨p, armed, hperformance, harm, hslept⟩ := exists_of_start hstart
  have hnone : ({ setup, script } : Performance).PausesMeet (·.ArmableAt origin) := nofun
  have hpending := armableAt_of_arm harm nofun
  have hp : p.WithinClock origin :=
    ⟨hpending, hnone.arrival (arrival_of_start hperformance) hpending⟩
  have hattentive : armed.Attentive := attentive_of_arm (coherent_of_start hperformance) rfl harm
  refine hattentive.withinClock_of_runUntil ?_ hslept
  rw [eq_of_arm harm]
  exact hp

theorem arm_eq_clockExceeded {alarm : Alarm} (hpending : b.performance.pending = some alarm)
    (hnew : b.armed.map Armed.alarm ≠ some alarm) (hlong : ¬ alarm.delay.ArmableAt b.clock) :
    b.arm = .error .clockExceeded := by
  unfold arm
  rw [hpending]
  dsimp only
  rw [if_neg hnew]
  exact if_neg hlong

/-- A script cannot begin with a pause that goes beyond the end of the clock. -/
theorem start_eq_clockExceeded (setup : Setup) {length : Duration}
    (hlong : ¬ length.ArmableAt origin) (rest : Script) :
    start setup (.pause length :: rest) origin = .error .clockExceeded := by
  have hstop : (({ setup, script := .pause length :: rest } : Performance).walkFrom 0).stop =
      .pause length 1 :=
    congrArg Walk.stop (Script.walkFrom_pause setup.handler _ rfl)
  obtain ⟨p, hstart, alarm, hpending, hdelay⟩ : ∃ p,
      Performance.start setup (.pause length :: rest) = .ok p ∧
        ∃ alarm, p.pending = some alarm ∧ alarm.delay = length :=
    ⟨_, walkOn_of_stop_pause hstop, _, rfl, rfl⟩
  have harm : (opening p origin).arm = .error .clockExceeded := by
    refine arm_eq_clockExceeded hpending (by simp [opening]) ?_
    rw [clock_opening, hdelay]
    exact hlong
  unfold start
  rw [hstart]
  dsimp only
  rw [harm]

/-! ## Histories -/

namespace History

/-- Until the clock comes to some reading, the pauses that a step brings up can be armed. -/
def Step.PlayableUntil (latest : Nat) : Step → Prop
  | .request made => made.PlayableUntil latest
  | .sleep _ => True
  | .stop => True

/-- How long a step takes. -/
def Step.millis : Step → Nat
  | .request _ => 0
  | .sleep millis => millis
  | .stop => 0

variable {history last : History} {steps : List Step}

/-- Behind a stop, every step can be done, and nothing comes of it. -/
theorem exists_steps_of_stopped (hstopped : history.stopped = true) (steps : List Step) :
    ∃ last reports, history.steps steps = .ok (last, reports) ∧
      last.playback.performance = history.playback.performance := by
  induction steps generalizing history with
  | nil => exact ⟨history, [], rfl, rfl⟩
  | cons step steps ih =>
      obtain ⟨next, report, hstep, hnext, hsame⟩ : ∃ next report,
          history.step step = .ok (next, report) ∧ next.stopped = true ∧
            next.playback.performance = history.playback.performance := by
        obtain ⟨playback, stopped⟩ := history
        obtain rfl : stopped = true := hstopped
        cases step with
        | request request => exact ⟨_, _, rfl, rfl, rfl⟩
        | sleep millis => exact ⟨_, _, rfl, rfl, rfl⟩
        | stop => exact ⟨_, _, rfl, rfl, rfl⟩
      obtain ⟨last, reports, hsteps, hlast⟩ := ih hnext
      refine ⟨last, report :: reports, ?_, hlast.trans hsame⟩
      rw [steps_cons_of_ok hstep, hsteps]
      rfl

theorem Resting.exists_step {step : Step} (hresting : history.Resting)
    (hplayable : history.playback.performance.PlayableUntil latest)
    (hstep : step.PlayableUntil latest)
    (hlatest : history.playback.clock + step.millis * nanosPerMilli ≤ latest) :
    ∃ next report, history.step step = .ok (next, report) ∧
      (next.stopped = true ∨ next.Resting ∧
        next.playback.performance.PlayableUntil latest ∧
        next.playback.clock = history.playback.clock + step.millis * nanosPerMilli) := by
  cases step with
  | request request =>
      obtain ⟨b, hrequest, hb⟩ :=
        hresting.toAttentive.exists_request hplayable (Nat.le_of_add_right_le hlatest) hstep
      obtain ⟨hrested, hnow⟩ := hresting.toAttentive.resting_of_request hrequest
      have hclock : b.clock = history.playback.clock + 0 * nanosPerMilli := by
        rw [clock, origin_of_request hrequest, hnow, Nat.zero_mul, Nat.add_zero, clock]
      refine ⟨(history.become b).1, (history.become b).2, ?_,
        .inr ⟨.become hresting.stopped_eq hrested, hb, hclock⟩⟩
      rw [step_request hresting.stopped_eq, hrequest]
      rfl
  | sleep millis =>
      have hclock : history.playback.origin + (history.playback.now + millis) * nanosPerMilli =
          history.playback.clock + millis * nanosPerMilli := by
        rw [clock, Nat.add_mul, Nat.add_assoc]
      obtain ⟨b, hsleep, hb⟩ := hresting.toAttentive.exists_runUntil hplayable
        (Nat.le_of_add_right_le hlatest) (hclock ▸ hlatest)
      have hslept : history.playback.sleep millis = .ok b := hsleep
      obtain ⟨hrested, hnow⟩ := hresting.toAttentive.resting_of_sleep hslept
      rw [← origin_of_runUntil hsleep, ← hnow] at hclock
      refine ⟨(history.become b).1, (history.become b).2, ?_,
        .inr ⟨.become hresting.stopped_eq hrested, hb, hclock⟩⟩
      rw [step_sleep hresting.stopped_eq, hslept]
      rfl
  | stop => exact ⟨_, _, rfl, .inl rfl⟩

theorem Resting.exists_steps (hresting : history.Resting)
    (hplayable : history.playback.performance.PlayableUntil latest)
    (hsteps : ∀ step ∈ steps, step.PlayableUntil latest)
    (hlatest : history.playback.clock + (steps.map Step.millis).sum * nanosPerMilli ≤ latest) :
    ∃ last reports, history.steps steps = .ok (last, reports) := by
  induction steps generalizing history with
  | nil => exact ⟨history, [], rfl⟩
  | cons step steps ih =>
      obtain ⟨hstep, hrest⟩ := List.forall_mem_cons.mp hsteps
      rw [List.map_cons, List.sum_cons, Nat.add_mul, ← Nat.add_assoc] at hlatest
      obtain ⟨next, report, hnext, hafter⟩ :=
        hresting.exists_step hplayable hstep (Nat.le_of_add_right_le hlatest)
      obtain ⟨last, reports, hlast⟩ : ∃ last reports, next.steps steps = .ok (last, reports) := by
        rcases hafter with hstopped | ⟨hrested, hplayable', hclock⟩
        · obtain ⟨last, reports, hlast, -⟩ := exists_steps_of_stopped hstopped steps
          exact ⟨last, reports, hlast⟩
        · exact ih hrested hplayable' hrest (hclock ▸ hlatest)
      refine ⟨last, report :: reports, ?_⟩
      rw [steps_cons_of_ok hnext, hlast]
      rfl

theorem Resting.withinClock_of_step {step : Step} {report : Report} (hresting : history.Resting)
    (hwithin : history.playback.performance.WithinClock history.playback.origin)
    (hstep : history.step step = .ok (last, report)) (hne : step ≠ .stop) :
    last.playback.performance.WithinClock last.playback.origin := by
  obtain ⟨b, -, hlast, hdone⟩ := hresting.exists_of_step hstep hne
  obtain ⟨rfl, -⟩ := Prod.mk.inj hlast
  show b.performance.WithinClock b.origin
  rcases hdone with ⟨request, -, hrequest⟩ | ⟨millis, -, hsleep⟩
  · exact hresting.toAttentive.withinClock_of_request hwithin hrequest
  · exact hresting.toAttentive.withinClock_of_runUntil hwithin hsleep

theorem Resting.withinClock_of_steps {reports : List Report} (hresting : history.Resting)
    (hwithin : history.playback.performance.WithinClock history.playback.origin)
    (hsteps : history.steps steps = .ok (last, reports)) :
    last.playback.performance.WithinClock history.playback.origin := by
  induction steps generalizing history reports with
  | nil =>
      obtain ⟨rfl, -⟩ := Prod.mk.inj (Except.ok.inj hsteps)
      exact hwithin
  | cons step steps ih =>
      obtain ⟨next, report, rest, hstep, hrest, -⟩ := steps_cons_eq_ok hsteps
      by_cases hstop : step = .stop
      · subst hstop
        obtain ⟨rfl, -⟩ := Prod.mk.inj (Except.ok.inj hstep)
        have hstopped : ({ history with stopped := true } : History).reported.stopped = true := rfl
        obtain ⟨last', reports', hsteps', hsame⟩ := exists_steps_of_stopped hstopped steps
        obtain ⟨rfl, -⟩ := Prod.mk.inj (Except.ok.inj (hrest.symm.trans hsteps'))
        rw [hsame]
        exact hwithin
      · rw [← hresting.origin_eq_of_step hstep hstop]
        exact ih (hresting.step hstep hstop)
          (hresting.withinClock_of_step hwithin hstep hstop) hrest

end History

/-! ## The main statement -/

/-- With the options of a command line, a script can be played until the clock comes to any reading
up to which its pauses and those of all scripts that are loaded can be armed.  If nothing broke off,
the clock could wait, at its reading at the start, for every pause that was come to. -/
theorem pauses_until_clockEnd {reader : List String → Except Options.Refusal Options}
    (hreader : Options.ReadsRests reader) {arguments : List String} {options : Options}
    (hoptions : reader arguments = .ok options) (noise : Nat → Nat) (script : Script)
    (steps : List History.Step) (origin : Nat) :
    (∀ latest, origin + (steps.map History.Step.millis).sum * nanosPerMilli ≤ latest →
      latest + 3 * Options.longestMillis < clockEnd →
      script.PlayableUntil latest → (∀ step ∈ steps, step.PlayableUntil latest) →
      ∃ b history reports, start { options.setup with noise } script origin = .ok b ∧
        (History.opening b).steps steps = .ok (history, reports)) ∧
      ∀ b history reports, start { options.setup with noise } script origin = .ok b →
        (History.opening b).steps steps = .ok (history, reports) →
        ∀ visit ∈ history.playback.performance.trail, ∀ length, visit.cue = .pause length →
          length.ArmableAt origin := by
  constructor
  · intro latest hsum hlatest hscript hsteps
    have hplayable : ({ setup := { options.setup with noise }, script } :
        Performance).PlayableUntil latest :=
      playableUntil_of_areRead (hreader _ _ hoptions) rfl hlatest hscript
    obtain ⟨b, hstart, hb⟩ := exists_start hplayable (Nat.le_of_add_right_le hsum)
    have hclock : b.clock = origin := by
      rw [clock, origin_of_start hstart, (resting_of_start hstart).2, Nat.zero_mul, Nat.add_zero]
    obtain ⟨history, reports, hlast⟩ :=
      (History.resting_opening hstart).exists_steps hb hsteps
        (show b.clock + _ ≤ latest from hclock ▸ hsum)
    exact ⟨b, history, reports, hstart, hlast⟩
  · intro b history reports hstart hsteps visit hvisit length hpause
    obtain rfl : b.origin = origin := origin_of_start hstart
    have hb : b.performance.WithinClock b.origin := withinClock_of_start hstart
    have hopening : (History.opening b).playback.performance.WithinClock
        (History.opening b).playback.origin := hb
    have hwithin := (History.resting_opening hstart).withinClock_of_steps hopening hsteps
    exact hwithin.pauses_armable visit hvisit length hpause

/-- The clock has run for 1000 seconds.  It can wait for a pause of `2 ^ 63 - 1024` seconds, and a
second of it passes. -/
theorem pauses_until_clockEnd_of_long_pause :
    ∃ options script b history reports,
      Options.ofArguments ["--script", "a.script"] = .ok options ∧
        Script.read "wait 9223372036854774784s\nsay \"Hi\"" = .ok script ∧
        start { options.setup with noise := fun _ => 0 } script (1000 * nanosPerSecond) = .ok b ∧
        (History.opening b).steps [.sleep 1000, .request .advance] = .ok (history, reports) ∧
        ∀ visit ∈ history.playback.performance.trail, ∀ length, visit.cue = .pause length →
          length.ArmableAt (1000 * nanosPerSecond) := by
  have hoptions : ∃ options, Options.ofArguments ["--script", "a.script"] = .ok options := ⟨_, rfl⟩
  obtain ⟨options, hoptions⟩ := hoptions
  have hread : Script.read "wait 9223372036854774784s\nsay \"Hi\"" =
      .ok [.pause ⟨9223372036854774784 * nanosPerSecond, by decide⟩, .line "Hi"] := by
    decide +kernel
  have hscript : Script.PlayableUntil
      [.pause ⟨9223372036854774784 * nanosPerSecond, by decide⟩, .line "Hi"]
      (1001 * nanosPerSecond) := by
    intro length hlength
    rcases List.mem_cons.mp hlength with hpause | hline
    · rw [Cue.pause.inj hpause]
      decide
    · simp at hline
  obtain ⟨hplayed, hpauses⟩ := pauses_until_clockEnd Options.readsRests_ofArguments hoptions
    (fun _ => 0) [.pause ⟨9223372036854774784 * nanosPerSecond, by decide⟩, .line "Hi"]
    [.sleep 1000, .request .advance] (1000 * nanosPerSecond)
  obtain ⟨b, history, reports, hstart, hsteps⟩ :=
    hplayed (1001 * nanosPerSecond) (by decide) (by decide) hscript
      (by simp [History.Step.PlayableUntil, Request.PlayableUntil])
  exact ⟨options, _, b, history, reports, hoptions, hread, hstart, hsteps,
    hpauses b history reports hstart hsteps⟩

/-- Not every script that can be read can be played: this pause is longer than `2 ^ 63` seconds, so
no clock can wait for it, whatever its reading. -/
theorem pause_beyond_clockEnd :
    ∃ script, Script.read "wait 10000000000000000000s\nsay \"Hi\"" = .ok script ∧
      (∃ length, .pause length ∈ script ∧ ¬ length.ArmableAt 0) ∧
      ∀ setup origin, start setup script origin = .error .clockExceeded := by
  have hread : Script.read "wait 10000000000000000000s\nsay \"Hi\"" =
      .ok [.pause ⟨10000000000000000000 * nanosPerSecond, by decide⟩, .line "Hi"] := by
    decide +kernel
  have hlong : ¬ Duration.ArmableAt ⟨10000000000000000000 * nanosPerSecond, by decide⟩ 0 := by
    decide
  refine ⟨_, hread, ⟨_, List.mem_cons_self, hlong⟩, fun setup origin => ?_⟩
  exact start_eq_clockExceeded setup (fun harmable => hlong (harmable.mono (Nat.zero_le origin))) _

end Playback

end Typewriter

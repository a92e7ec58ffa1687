import Typewriter.Proofs.Performance.AlarmsLeft
import Typewriter.Proofs.Playback.Schedules

/-!
# Playbacks at rest

Between two alarms a playback is attentive: the pending alarm is armed and no other, and the screen
is published.  Behind every step of a history it is at rest, for besides no alarm is due:
`History.resting_of_steps` says that all alarms that were due have rung, chains of them included.
The limit that `ringDue` is given never ends such a chain, as `alarmsLeft` goes down with each alarm
that rings.
-/

namespace Typewriter

/-- An alarm is not due exactly before its deadline. -/
theorem Armed.lt_due_iff (armed : Armed) (time : Nat) :
    time < armed.due ↔ time * nanosPerMilli < armed.deadline := by
  simp only [due, nanosPerMilli]
  omega

namespace Playback

/-- The pending alarm is armed and no other, and the screen is published. -/
structure Attentive (b : Playback) : Prop where
  coherent : b.performance.Coherent
  armed_eq : b.armed.map Armed.alarm = b.performance.pending
  published_eq : b.published = b.performance.screen

/-- Besides, no alarm is due. -/
structure Resting (b : Playback) : Prop extends Attentive b where
  lt_due : ∀ armed, b.armed = some armed → b.now < armed.due

variable {b next : Playback} {armed : Armed} {time limit : Nat}

theorem Attentive.pending_eq (hattentive : b.Attentive) (harmed : b.armed = some armed) :
    b.performance.pending = some armed.alarm := by
  rw [← hattentive.armed_eq, harmed, Option.map_some]

/-! ## One function at a time -/

theorem attentive_of_arm (hcoherent : b.performance.Coherent)
    (hpublished : b.published = b.performance.screen) (harm : b.arm = .ok next) :
    next.Attentive := by
  rw [eq_of_arm harm]
  exact ⟨hcoherent, Player.map_alarm_rearmed b.toPlayer, hpublished⟩

/-- Going on with a performance keeps the time, publishes its screen and arms its pending alarm. -/
theorem attentive_of_continueWith {p : Performance} (hcoherent : p.Coherent)
    (hnext : b.continueWith (.ok p) = .ok next) :
    next.Attentive ∧ next.performance = p ∧ next.now = b.now := by
  obtain ⟨hperformance, hnow, -, hpublished⟩ := publish_eq { b with performance := p }
  have harm : { b with performance := p }.publish.arm = .ok next := hnext
  refine ⟨attentive_of_arm ?_ ?_ harm, ?_, ?_⟩
  · rw [hperformance]
    exact hcoherent
  · rw [hpublished, hperformance]
  · rw [eq_of_arm harm]
    exact hperformance
  · rw [eq_of_arm harm]
    exact hnow

/-- An armed alarm that rings leaves one alarm fewer. -/
theorem Attentive.ringAt (hattentive : b.Attentive) (harmed : b.armed = some armed)
    (hnext : b.ringAt time armed = .ok next) :
    next.Attentive ∧ next.now = time ∧
      b.performance.ring armed.alarm = .ok next.performance ∧
      next.performance.alarmsLeft < b.performance.alarmsLeft := by
  unfold Playback.ringAt at hnext
  obtain ⟨p, hring⟩ := exists_of_continueWith hnext
  have hcourse := hattentive.coherent.course_ring hring
  rw [hring] at hnext
  obtain ⟨hnext', rfl, hnow⟩ :=
    attentive_of_continueWith (hcourse.coherent hattentive.coherent) hnext
  exact ⟨hnext', hnow, hring,
    hattentive.coherent.alarmsLeft_lt (hattentive.pending_eq harmed) hring⟩

/-! ## Letting the clock run -/

/-- No armed alarm is due at a time. -/
def Idle (b : Playback) (time : Nat) : Prop :=
  ∀ armed, b.armed = some armed → time < armed.due

theorem idle_of_armed_eq_none (harmed : b.armed = none) (time : Nat) : b.Idle time := by
  intro armed hsome
  rw [harmed] at hsome
  contradiction

theorem idle_of_lt_due (harmed : b.armed = some armed) (hlt : time < armed.due) : b.Idle time := by
  intro other hsome
  rw [← Option.some.inj (harmed.symm.trans hsome)]
  exact hlt

theorem idle_or (b : Playback) (time : Nat) :
    b.Idle time ∨ ∃ armed, b.armed = some armed ∧ armed.due ≤ time := by
  cases harmed : b.armed with
  | none => exact .inl (idle_of_armed_eq_none harmed time)
  | some armed =>
      rcases Nat.lt_or_ge time armed.due with hlt | hle
      · exact .inl (idle_of_lt_due harmed hlt)
      · exact .inr ⟨armed, rfl, hle⟩

theorem Idle.ringDue_eq (hidle : b.Idle time) (limit : Nat) : b.ringDue limit time = .ok b := by
  cases limit with
  | zero => rfl
  | succ limit =>
      rw [ringDue.eq_def]
      cases harmed : b.armed with
      | none => rfl
      | some armed =>
          dsimp only
          rw [if_neg (Nat.not_le.mpr (hidle armed harmed))]

theorem ringDue_of_due_le (harmed : b.armed = some armed) (hdue : armed.due ≤ time)
    (limit : Nat) :
    b.ringDue (limit + 1) time =
      b.ringAt (max b.now armed.due) armed >>= fun next => next.ringDue limit time := by
  rw [ringDue.eq_def]
  simp only [harmed, if_pos hdue]
  cases b.ringAt (max b.now armed.due) armed with
  | error fault => rfl
  | ok next => rfl

/-- The limit makes no difference, as long as so many alarms may ring as are left. -/
theorem Attentive.ringDue_eq {other : Nat} (hattentive : b.Attentive)
    (hlimit : b.performance.alarmsLeft ≤ limit) (hother : b.performance.alarmsLeft ≤ other) :
    b.ringDue limit time = b.ringDue other time := by
  induction limit generalizing b other with
  | zero =>
      rcases b.idle_or time with hidle | ⟨armed, harmed, -⟩
      · rw [hidle.ringDue_eq, hidle.ringDue_eq]
      · have hpos := hattentive.coherent.alarmsLeft_pos (hattentive.pending_eq harmed)
        omega
  | succ limit ih =>
      rcases b.idle_or time with hidle | ⟨armed, harmed, hdue⟩
      · rw [hidle.ringDue_eq, hidle.ringDue_eq]
      · have hpos := hattentive.coherent.alarmsLeft_pos (hattentive.pending_eq harmed)
        obtain ⟨rest, rfl⟩ : ∃ rest, other = rest + 1 := ⟨other - 1, by omega⟩
        rw [ringDue_of_due_le harmed hdue, ringDue_of_due_le harmed hdue]
        cases hring : b.ringAt (max b.now armed.due) armed with
        | error fault => rfl
        | ok next =>
            obtain ⟨hnext, -, -, hlt⟩ := hattentive.ringAt harmed hring
            exact ih hnext (by omega) (by omega)

theorem Attentive.alarmsLeft_lt (hattentive : b.Attentive) :
    b.performance.alarmsLeft < b.alarmLimit :=
  Nat.lt_succ_of_le hattentive.coherent.alarmsLeft_le

/-- Where nothing is due, the clock just runs on. -/
theorem Idle.runUntil_eq (hidle : b.Idle time) : b.runUntil time = .ok { b with now := time } := by
  unfold runUntil
  rw [hidle.ringDue_eq]

/-- An alarm that is due rings, at its time or at once, and the clock runs on from there. -/
theorem Attentive.runUntil_eq (hattentive : b.Attentive) (harmed : b.armed = some armed)
    (hdue : armed.due ≤ time) :
    b.runUntil time =
      b.ringAt (max b.now armed.due) armed >>= fun next => next.runUntil time := by
  unfold runUntil
  rw [alarmLimit, ringDue_of_due_le harmed hdue]
  cases hring : b.ringAt (max b.now armed.due) armed with
  | error fault => rfl
  | ok next =>
      obtain ⟨hnext, -, -, hlt⟩ := hattentive.ringAt harmed hring
      have hleft := hattentive.alarmsLeft_lt
      have hnext_left := hnext.alarmsLeft_lt
      rw [alarmLimit] at hleft
      have hlimit : next.ringDue (b.performance.script.pauseCount +
          b.performance.script.longestLine) time = next.ringDue next.alarmLimit time :=
        hnext.ringDue_eq (by omega) (by omega)
      dsimp only [Bind.bind, Except.bind]
      rw [hlimit]

/-- To prove something of letting the clock run, prove it where nothing is due, and carry it back
over each alarm that rings and each that breaks the playback off.  The recursion ends because each
alarm that rings leaves one fewer. -/
theorem runUntil_induction (time : Nat) {motive : Playback → Except Fault Playback → Prop}
    (idle : ∀ b : Playback, b.Attentive → b.Idle time → motive b (.ok { b with now := time }))
    (broken : ∀ (b : Playback) armed fault, b.Attentive → b.armed = some armed →
      armed.due ≤ time → b.ringAt (max b.now armed.due) armed = .error fault →
      motive b (.error fault))
    (rung : ∀ (b : Playback) armed next result, b.Attentive → b.armed = some armed →
      armed.due ≤ time → b.ringAt (max b.now armed.due) armed = .ok next →
      motive next result → motive b result)
    (b : Playback) (hattentive : b.Attentive) : motive b (b.runUntil time) := by
  rcases b.idle_or time with hidle | ⟨armed, harmed, hdue⟩
  · rw [hidle.runUntil_eq]
    exact idle b hattentive hidle
  · rw [hattentive.runUntil_eq harmed hdue]
    cases hring : b.ringAt (max b.now armed.due) armed with
    | error fault => exact broken b armed fault hattentive harmed hdue hring
    | ok next =>
        obtain ⟨hnext, -, -, hlt⟩ := hattentive.ringAt harmed hring
        exact rung b armed next _ hattentive harmed hdue hring
          (runUntil_induction time idle broken rung next hnext)
termination_by b.performance.alarmsLeft
decreasing_by exact hlt

/-- What no alarm that rings puts an end to, letting the clock run does not either. -/
theorem Attentive.of_runUntil {motive : Performance → Prop} (hattentive : b.Attentive)
    (hring : ∀ (b next : Playback) time armed, b.Attentive → b.armed = some armed →
      b.ringAt time armed = .ok next → motive b.performance → motive next.performance)
    (hbefore : motive b.performance) (hnext : b.runUntil time = .ok next) :
    motive next.performance := by
  refine runUntil_induction time
    (motive := fun b result => motive b.performance →
      ∀ next, result = .ok next → motive next.performance)
    ?idle ?broken ?rung b hattentive hbefore next hnext
  case idle =>
    intro b _ _ hbefore next hnext
    rw [← Except.ok.inj hnext]
    exact hbefore
  case broken =>
    intro _ _ _ _ _ _ _ _ next hnext
    contradiction
  case rung =>
    intro b armed rung result hattentive harmed _ hrung ih hbefore
    exact ih (hring b rung _ armed hattentive harmed hrung hbefore)

/-- All alarms that are due ring while the clock runs, and nothing is due in the end. -/
theorem Attentive.resting_of_runUntil (hattentive : b.Attentive)
    (hnext : b.runUntil time = .ok next) : next.Resting ∧ next.now = time := by
  refine runUntil_induction time
    (motive := fun _ result => ∀ next, result = .ok next → next.Resting ∧ next.now = time)
    ?idle ?broken ?rung b hattentive next hnext
  case idle =>
    intro b hattentive hidle next hnext
    rw [← Except.ok.inj hnext]
    exact ⟨⟨⟨hattentive.coherent, hattentive.armed_eq, hattentive.published_eq⟩, hidle⟩, rfl⟩
  case broken =>
    intro _ _ fault _ _ _ _ next hnext
    contradiction
  case rung =>
    intro _ _ _ _ _ _ _ _ ih
    exact ih

theorem Attentive.resting_of_sleep {millis : Nat} (hattentive : b.Attentive)
    (hnext : b.sleep millis = .ok next) : next.Resting ∧ next.now = b.now + millis :=
  hattentive.resting_of_runUntil hnext

theorem Attentive.resting_of_request {request : Request} (hattentive : b.Attentive)
    (hnext : b.request request = .ok next) : next.Resting ∧ next.now = b.now := by
  obtain ⟨went, p, happly, hwent, hslept⟩ := exists_of_request hnext
  have hcourse := hattentive.coherent.course happly
  obtain ⟨hattentive', -, hnow⟩ :=
    attentive_of_continueWith (hcourse.coherent hattentive.coherent) hwent
  rw [← hnow]
  exact hattentive'.resting_of_sleep hslept

theorem resting_of_start {setup : Setup} {script : Script} {origin : Nat}
    (hstart : start setup script origin = .ok b) : b.Resting ∧ b.now = 0 := by
  obtain ⟨p, armed, hperformance, harm, hslept⟩ := exists_of_start hstart
  have hattentive := attentive_of_arm (Performance.coherent_of_start hperformance) rfl harm
  obtain ⟨hresting, hnow⟩ := hattentive.resting_of_sleep hslept
  rw [eq_of_arm harm] at hnow
  exact ⟨hresting, hnow⟩

/-! ## Histories -/

namespace History

variable {history last : History}

/-- The history after the playback has become another one, and the report on it. -/
def become (history : History) (b : Playback) : History × Report :=
  ({ history with playback := b }.reported,
    { history with playback := b }.report history.playback.performance.log.length false)

theorem step_request (hstopped : history.stopped = false) (request : Request) :
    history.step (.request request) = (history.playback.request request).map history.become := by
  obtain ⟨playback, stopped⟩ := history
  obtain rfl : stopped = false := hstopped
  unfold step perform
  simp only [Bool.false_eq_true, if_false]
  cases playback.request request with
  | error fault => rfl
  | ok b => rfl

theorem step_sleep (hstopped : history.stopped = false) (millis : Nat) :
    history.step (.sleep millis) = (history.playback.sleep millis).map history.become := by
  obtain ⟨playback, stopped⟩ := history
  obtain rfl : stopped = false := hstopped
  unfold step perform
  simp only [Bool.false_eq_true, if_false]
  cases playback.sleep millis with
  | error fault => rfl
  | ok b => rfl

/-- As long as it is not stopped, a history is at rest, and no change is left to be reported. -/
structure Resting (history : History) : Prop extends history.playback.Resting where
  stopped_eq : history.stopped = false
  changed_eq : history.playback.changed = false

theorem Resting.become (hstopped : history.stopped = false) {b : Playback} (hresting : b.Resting) :
    (history.become b).1.Resting :=
  ⟨⟨⟨hresting.coherent, hresting.armed_eq, hresting.published_eq⟩, hresting.lt_due⟩, hstopped, rfl⟩

/-- A step that does not stop the playback serves a request or lets some time pass. -/
theorem Resting.exists_of_step {step : Step} {report : Report} (hresting : history.Resting)
    (hstep : history.step step = .ok (last, report)) (hne : step ≠ .stop) :
    ∃ b : Playback, b.Resting ∧ (last, report) = history.become b ∧
      ((∃ request, step = .request request ∧ history.playback.request request = .ok b) ∨
        ∃ millis, step = .sleep millis ∧ history.playback.sleep millis = .ok b) := by
  cases step with
  | request request =>
      rw [step_request hresting.stopped_eq] at hstep
      cases hrequest : history.playback.request request with
      | error fault => rw [hrequest] at hstep; contradiction
      | ok b =>
          rw [hrequest] at hstep
          exact ⟨b, (hresting.toAttentive.resting_of_request hrequest).1,
            (Except.ok.inj hstep).symm, .inl ⟨request, rfl, hrequest⟩⟩
  | sleep millis =>
      rw [step_sleep hresting.stopped_eq] at hstep
      cases hsleep : history.playback.sleep millis with
      | error fault => rw [hsleep] at hstep; contradiction
      | ok b =>
          rw [hsleep] at hstep
          exact ⟨b, (hresting.toAttentive.resting_of_sleep hsleep).1,
            (Except.ok.inj hstep).symm, .inr ⟨millis, rfl, hsleep⟩⟩
  | stop => contradiction

/-- The origin of the clock stays. -/
theorem Resting.origin_eq_of_step {step : Step} {report : Report} (hresting : history.Resting)
    (hstep : history.step step = .ok (last, report)) (hne : step ≠ .stop) :
    last.playback.origin = history.playback.origin := by
  obtain ⟨b, -, hlast, hdone⟩ := hresting.exists_of_step hstep hne
  obtain ⟨rfl, -⟩ := Prod.mk.inj hlast
  show b.origin = history.playback.origin
  rcases hdone with ⟨request, -, hrequest⟩ | ⟨millis, -, hsleep⟩
  · exact origin_of_request hrequest
  · exact origin_of_runUntil hsleep

theorem ne_stop_of_step {step : Step} {report : Report}
    (hstep : history.step step = .ok (last, report)) (hstopped : last.stopped = false) :
    step ≠ .stop := by
  rintro rfl
  obtain ⟨rfl, -⟩ := Prod.mk.inj (Except.ok.inj hstep)
  contradiction

theorem Resting.step {step : Step} {report : Report} (hresting : history.Resting)
    (hstep : history.step step = .ok (last, report)) (hne : step ≠ .stop) : last.Resting := by
  obtain ⟨b, hb, hlast, -⟩ := hresting.exists_of_step hstep hne
  obtain ⟨rfl, -⟩ := Prod.mk.inj hlast
  exact .become hresting.stopped_eq hb

/-- The history of a playback that has just started. -/
def opening (b : Playback) : History :=
  reported { playback := b }

variable {b : Playback} {setup : Setup} {script : Script} {origin : Nat}

theorem resting_opening (hstart : Playback.start setup script origin = .ok b) :
    (opening b).Resting :=
  have hresting : b.Resting := (resting_of_start hstart).1
  ⟨⟨⟨hresting.coherent, hresting.armed_eq, hresting.published_eq⟩, hresting.lt_due⟩, rfl, rfl⟩

/-- Nothing takes a stop back. -/
theorem stopped_eq_of_steps {steps : List Step} {reports : List Report}
    (hsteps : history.steps steps = .ok (last, reports)) (hstopped : last.stopped = false) :
    history.stopped = false :=
  (leads_of_steps hsteps hstopped).1

/-- Behind every step, all alarms that were due have rung. -/
theorem Resting.steps {steps : List Step} {reports : List Report} (hresting : history.Resting)
    (hsteps : history.steps steps = .ok (last, reports)) (hstopped : last.stopped = false) :
    last.Resting := by
  induction steps generalizing history reports with
  | nil =>
      obtain ⟨rfl, -⟩ := Prod.mk.inj (Except.ok.inj hsteps)
      exact hresting
  | cons step steps ih =>
      obtain ⟨next, report, rest, hstep, hrest, -⟩ := steps_cons_eq_ok hsteps
      have hnext : next.stopped = false := stopped_eq_of_steps hrest hstopped
      exact ih (hresting.step hstep (ne_stop_of_step hstep hnext)) hrest

theorem Resting.origin_eq_of_steps {steps : List Step} {reports : List Report}
    (hresting : history.Resting) (hsteps : history.steps steps = .ok (last, reports))
    (hstopped : last.stopped = false) : last.playback.origin = history.playback.origin := by
  induction steps generalizing history reports with
  | nil =>
      obtain ⟨rfl, -⟩ := Prod.mk.inj (Except.ok.inj hsteps)
      rfl
  | cons step steps ih =>
      obtain ⟨next, report, rest, hstep, hrest, -⟩ := steps_cons_eq_ok hsteps
      have hne : step ≠ .stop := ne_stop_of_step hstep (stopped_eq_of_steps hrest hstopped)
      exact (ih (hresting.step hstep hne) hrest).trans (hresting.origin_eq_of_step hstep hne)

theorem resting_of_steps {steps : List Step} {reports : List Report}
    (hstart : Playback.start setup script origin = .ok b)
    (hsteps : (opening b).steps steps = .ok (history, reports))
    (hstopped : history.stopped = false) : history.Resting :=
  (resting_opening hstart).steps hsteps hstopped

end History

end Playback

end Typewriter

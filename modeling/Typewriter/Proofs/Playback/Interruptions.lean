import Typewriter.Proofs.Playback.Resting

/-!
# Advances that are not heard

During a pause, and behind the end, an advance has no effect on a performance.  On a clock it has
none either: a playback that is at rest stays the same, its armed alarm and the deadline included
(`Resting.request_advance_eq`).  So advances may be put in wherever the published screen tells that
the reader is not heard.  All other steps are answered as they were (`Settled.steps_map`), and a
pause is over when its time has passed since it began, however many advances came in between
(`SeesThrough`).

The main statement is `History.unheard_advances_leave_no_trace`.
-/

namespace Typewriter

/-- Whether the reader is not heard: during a pause, or behind the end. -/
def Screen.unheard (screen : Screen) : Bool :=
  !screen.live || screen.phase = .ended

namespace Performance

variable {p : Performance} {alarm : Alarm} {position : Nat}

theorem Coherent.advance_eq (hcoherent : p.Coherent) (hunheard : p.screen.unheard) :
    p.advance = .ok p := by
  cases hcoherent with
  | typing line alarm htyping =>
      simp [Screen.unheard, screen, htyping.live_eq, htyping.phase_eq] at hunheard
  | shown line hshown =>
      simp [Screen.unheard, screen, hshown.live_eq, hshown.phase_eq] at hunheard
  | paused position alarm hpaused => exact hpaused.advance_eq
  | ended hended => exact hended.advance_eq

theorem Coherent.paused_of_purpose (hcoherent : p.Coherent) (hpending : p.pending = some alarm)
    (hpurpose : alarm.purpose = .walkOn position) : ∃ position, p.Paused position alarm := by
  rcases hcoherent.typing_or_paused hpending with ⟨line, htyping⟩ | hpaused
  · rw [htyping.purpose_eq] at hpurpose
    contradiction
  · exact hpaused

theorem Paused.unheard_screen (hpaused : p.Paused position alarm) : p.screen.unheard := by
  simp [Screen.unheard, screen, hpaused.live_eq]

end Performance

namespace Playback

variable {b next : Playback} {armed : Armed} {time : Nat}

/-! ## No effect on the clock -/

/-- There is nothing to publish, and no alarm to arm. -/
theorem Attentive.continueWith_eq (hattentive : b.Attentive) :
    b.continueWith (.ok b.performance) = .ok b := by
  have hpublish : b.publish = b := if_pos hattentive.published_eq.symm
  show b.publish.arm = .ok b
  rw [hpublish, arm]
  cases hpending : b.performance.pending with
  | none =>
      have harmed : b.armed = none := by
        rw [← Option.map_eq_none_iff, hattentive.armed_eq, hpending]
      simp only [← harmed]
  | some alarm =>
      have hsame : b.armed.map Armed.alarm = some alarm := by
        rw [hattentive.armed_eq, hpending]
      simp only [if_pos hsame]

theorem Resting.sleep_zero (hresting : b.Resting) : b.sleep 0 = .ok b :=
  Idle.runUntil_eq hresting.lt_due

/-- An advance that is not heard changes nothing, and the armed alarm keeps its deadline. -/
theorem Resting.request_advance_eq (hresting : b.Resting) (hunheard : b.published.unheard) :
    b.request .advance = .ok b := by
  rw [hresting.published_eq] at hunheard
  have hadvance : b.performance.apply Request.advance.operation = .ok b.performance :=
    hresting.coherent.advance_eq hunheard
  rw [request, hadvance, hresting.continueWith_eq]
  exact hresting.sleep_zero

/-! ## Deadlines -/

/-- An alarm that was not armed before gets its deadline from the present time. -/
theorem armed_of_arm (harm : b.arm = .ok next) (harmed : next.armed = some armed) :
    b.armed = some armed ∨
      armed.deadline = b.now * nanosPerMilli + armed.alarm.delay.nanos := by
  have hrearmed : b.toPlayer.rearmed = some armed := by
    rw [eq_of_arm harm] at harmed
    exact harmed
  have hpending : b.toPlayer.performance.pending = some armed.alarm := by
    rw [← Player.map_alarm_rearmed, hrearmed, Option.map_some]
  rcases Player.rearmed_of_pending_eq_some hpending with ⟨same, hsame, -, heq⟩ | ⟨-, heq⟩
  · left
    rw [← heq.symm.trans hrearmed]
    exact hsame
  · right
    rw [← Option.some.inj (heq.symm.trans hrearmed)]
    rfl

theorem armed_of_continueWith {p : Performance} (hnext : b.continueWith (.ok p) = .ok next)
    (harmed : next.armed = some armed) :
    b.armed = some armed ∨
      armed.deadline = b.now * nanosPerMilli + armed.alarm.delay.nanos := by
  obtain ⟨-, hnow, hbefore, -⟩ := publish_eq { b with performance := p }
  have h := armed_of_arm hnext harmed
  rw [hnow, hbefore] at h
  exact h

theorem armed_of_ringAt {rung : Armed} (hnext : b.ringAt time rung = .ok next)
    (harmed : next.armed = some armed) :
    armed.deadline = time * nanosPerMilli + armed.alarm.delay.nanos := by
  unfold ringAt at hnext
  obtain ⟨p, hring⟩ := exists_of_continueWith hnext
  rw [hring] at hnext
  rcases armed_of_continueWith hnext harmed with hbefore | hdeadline
  · contradiction
  · exact hdeadline

/-- Where the clock does not run on beyond the next alarm, all that rings meanwhile rings at its
last time, and all that is armed meanwhile is armed there. -/
theorem Attentive.armed_of_runUntil (hattentive : b.Attentive) (hnow : b.now ≤ time)
    (hshort : ∀ armed, b.armed = some armed → time ≤ max b.now armed.due)
    (hnext : b.runUntil time = .ok next) (harmed : next.armed = some armed) :
    b.armed = some armed ∨
      armed.deadline = time * nanosPerMilli + armed.alarm.delay.nanos := by
  refine runUntil_induction time
    (motive := fun b result => b.now ≤ time →
      (∀ armed, b.armed = some armed → time ≤ max b.now armed.due) →
      ∀ next, result = .ok next → next.armed = some armed → b.armed = some armed ∨
        armed.deadline = time * nanosPerMilli + armed.alarm.delay.nanos)
    ?idle ?broken ?rung b hattentive hnow hshort next hnext harmed
  case idle =>
    intro b _ _ _ _ next hnext harmed
    rw [← Except.ok.inj hnext] at harmed
    exact .inl harmed
  case broken =>
    intro _ _ _ _ _ _ _ _ _ next hnext
    contradiction
  case rung =>
    intro b rung next result hattentive hrung hdue hring ih hnow hshort last hlast harmed
    obtain ⟨-, htime, -⟩ := hattentive.ringAt hrung hring
    have hlast_time : max b.now rung.due = time :=
      Nat.le_antisymm (Nat.max_le.mpr ⟨hnow, hdue⟩) (hshort rung hrung)
    rw [hlast_time] at hring htime
    have hle : next.now ≤ time := Nat.le_of_eq htime
    have hshort' (other : Armed) (_ : next.armed = some other) :
        time ≤ max next.now other.due := by
      rw [htime]
      exact Nat.le_max_left _ _
    rcases ih hle hshort' last hlast harmed with hnext | hdeadline
    · exact .inr (armed_of_ringAt hring hnext)
    · exact .inr hdeadline

theorem Attentive.armed_of_request {request : Request} (hattentive : b.Attentive)
    (hnext : b.request request = .ok next) (harmed : next.armed = some armed) :
    b.armed = some armed ∨
      armed.deadline = b.now * nanosPerMilli + armed.alarm.delay.nanos := by
  obtain ⟨went, p, happly, hwent, hslept⟩ := exists_of_request hnext
  have hcourse := hattentive.coherent.course happly
  obtain ⟨hattentive', -, hnow⟩ :=
    attentive_of_continueWith (hcourse.coherent hattentive.coherent) hwent
  rcases hattentive'.armed_of_runUntil (Nat.le_refl _) (fun _ _ => Nat.le_max_left _ _) hslept
    harmed with hbefore | hdeadline
  · exact armed_of_continueWith hwent hbefore
  · right
    rw [← hnow]
    exact hdeadline

/-- In no more than a millisecond, nothing is armed but at its end. -/
theorem Resting.armed_of_sleep {millis : Nat} (hresting : b.Resting) (hshort : millis ≤ 1)
    (hnext : b.sleep millis = .ok next) (harmed : next.armed = some armed) :
    b.armed = some armed ∨
      armed.deadline = (b.now + millis) * nanosPerMilli + armed.alarm.delay.nanos := by
  refine hresting.armed_of_runUntil (Nat.le_add_right _ _) ?_ hnext harmed
  intro other hother
  have hlt := hresting.lt_due other hother
  omega

theorem armed_of_start {setup : Setup} {script : Script} {origin : Nat}
    (hstart : start setup script origin = .ok b) (harmed : b.armed = some armed) :
    armed.deadline = armed.alarm.delay.nanos := by
  obtain ⟨p, first, hperformance, harm, hslept⟩ := exists_of_start hstart
  have hattentive := attentive_of_arm (Performance.coherent_of_start hperformance) rfl harm
  have hnow : first.now = 0 := by rw [eq_of_arm harm]; rfl
  rcases hattentive.armed_of_runUntil (Nat.le_refl _) (fun _ _ => Nat.le_max_left _ _) hslept
    harmed with hbefore | hdeadline
  · rcases armed_of_arm harm hbefore with hnever | hdeadline
    · contradiction
    · simpa [opening] using hdeadline
  · simpa [hnow] using hdeadline

/-! ## How long an alarm is waited for -/

/-- An armed alarm is waited for until its deadline, and over from then on. -/
structure SeesThrough (b : Playback) (armed : Armed) : Prop where
  issued : b.performance.Issued armed.alarm
  waits_or_over : b.armed = some armed ∨
    (b.performance.pending ≠ some armed.alarm ∧ armed.deadline ≤ b.now * nanosPerMilli)

theorem SeesThrough.pending_iff (hsees : b.SeesThrough armed) (hresting : b.Resting) :
    b.performance.pending = some armed.alarm ↔ b.now * nanosPerMilli < armed.deadline := by
  rcases hsees.waits_or_over with harmed | ⟨hover, hdeadline⟩
  · have hlt := (armed.lt_due_iff _).mp (hresting.lt_due armed harmed)
    exact iff_of_true (hresting.pending_eq harmed) hlt
  · exact iff_of_false hover (Nat.not_lt.mpr hdeadline)

theorem SeesThrough.runUntil (hsees : b.SeesThrough armed) (hattentive : b.Attentive)
    (hnow : b.now ≤ time) (hnext : b.runUntil time = .ok next) : next.SeesThrough armed := by
  refine runUntil_induction time
    (motive := fun b result => b.SeesThrough armed → b.now ≤ time →
      ∀ next, result = .ok next → next.SeesThrough armed)
    ?idle ?broken ?rung b hattentive hsees hnow next hnext
  case idle =>
    intro b _ _ hsees hnow next hnext
    rw [← Except.ok.inj hnext]
    refine ⟨hsees.issued, hsees.waits_or_over.imp_right fun ⟨hover, hdeadline⟩ => ⟨hover, ?_⟩⟩
    exact Nat.le_trans hdeadline (Nat.mul_le_mul_right _ hnow)
  case broken =>
    intro _ _ _ _ _ _ _ _ _ next hnext
    contradiction
  case rung =>
    intro b rung next result hattentive hrung hdue hring ih hsees hnow
    obtain ⟨-, htime, hperformance, -⟩ := hattentive.ringAt hrung hring
    have honward := (hattentive.coherent.course_ring hperformance).onward
    have hnext : next.SeesThrough armed := by
      refine ⟨honward.issued_mono _ hsees.issued, .inr ?_⟩
      rw [htime]
      rcases hsees.waits_or_over with harmed | ⟨hover, hdeadline⟩
      · -- This is the alarm that rings, at its deadline or later.
        obtain rfl : rung = armed := Option.some.inj (hrung.symm.trans harmed)
        refine ⟨?_, ?_⟩
        · intro hpending
          exact Performance.not_issued_of_ring hattentive.coherent (hattentive.pending_eq hrung)
            hperformance hpending hsees.issued
        · exact Armed.deadline_le_of_due_le (Nat.le_max_right _ _)
      · refine ⟨honward.not_pending hsees.issued hover, Nat.le_trans hdeadline ?_⟩
        exact Nat.mul_le_mul_right _ (Nat.le_max_left _ _)
    exact ih hnext (htime ▸ Nat.max_le.mpr ⟨hnow, hdue⟩)

/-- The alarm of a pause is seen through, for all advances. -/
theorem SeesThrough.advance {position : Nat} (hsees : b.SeesThrough armed) (hresting : b.Resting)
    (hpurpose : armed.alarm.purpose = .walkOn position) (hnext : b.request .advance = .ok next) :
    next.SeesThrough armed := by
  rcases hsees.waits_or_over with harmed | ⟨hover, hdeadline⟩
  · obtain ⟨_, hpaused⟩ :=
      hresting.coherent.paused_of_purpose (hresting.pending_eq harmed) hpurpose
    have hunheard : b.published.unheard := hresting.published_eq ▸ hpaused.unheard_screen
    rw [hresting.request_advance_eq hunheard] at hnext
    exact Except.ok.inj hnext ▸ hsees
  · obtain ⟨went, p, happly, hwent, hslept⟩ := exists_of_request hnext
    have hcourse := hresting.coherent.course happly
    obtain ⟨hattentive, rfl, hnow⟩ :=
      attentive_of_continueWith (hcourse.coherent hresting.coherent) hwent
    have hwent_sees : went.SeesThrough armed :=
      ⟨hcourse.onward.issued_mono _ hsees.issued,
        .inr ⟨hcourse.onward.not_pending hsees.issued hover, hnow ▸ hdeadline⟩⟩
    exact hwent_sees.runUntil hattentive (Nat.le_refl _) hslept

namespace History

/-! ## Advances put in between -/

/-- A step of a list, or an advance that is put in. -/
inductive Slot where
  | own (step : Step)
  | extra
deriving DecidableEq

/-- What is done. -/
def Slot.step : Slot → Step
  | own step => step
  | extra => .request .advance

/-- What would be done anyway. -/
def Slot.own? : Slot → Option Step
  | own step => some step
  | extra => none

/-- Whether each advance that is put in falls where the reader is not heard, by the screen that is
published there when only the own steps are done. -/
def ignores (history : History) : List Slot → Bool
  | [] => true
  | .extra :: slots => history.playback.published.unheard && history.ignores slots
  | .own step :: slots =>
      match history.step step with
      | .ok (next, _) => next.ignores slots
      | .error _ => true

/-- The report behind another one when nothing has happened since.  Behind a stop, where it is not
known whether the screen changed, it tells that the request was refused. -/
def Report.again (last : Report) : Report :=
  { last with
    changed := last.changed.map fun _ => false
    events := []
    refused := last.changed.isNone }

/-- The reports on own steps, and between them one that nothing has happened for each advance that
is put in. -/
def Report.spread (last : Report) : List Slot → List Report → List Report
  | .extra :: slots, reports => last.again :: last.spread slots reports
  | .own _ :: slots, report :: reports => report :: report.spread slots reports
  | _, _ => []

/-- A report tells how things are in a history. -/
structure Report.Tells (report : Report) (history : History) : Prop where
  screen_eq : report.screen = history.playback.published
  changed_isNone : report.changed.isNone = history.stopped
  now_eq : report.now = history.playback.now

/-- No change is left to be reported, and until it is stopped the playback is at rest. -/
structure Settled (history : History) : Prop where
  changed_eq : history.playback.changed = false
  resting : history.stopped = false → history.playback.Resting

variable {history next last : History} {report : Report} {step : Step}

theorem tells_report (history : History) (known : Nat) (refused : Bool) :
    (history.report known refused).Tells history.reported := by
  refine ⟨rfl, ?_, rfl⟩
  cases hstopped : history.stopped <;> simp [report, reported, hstopped]

theorem tells_of_step (hstep : history.step step = .ok (next, report)) : report.Tells next := by
  obtain ⟨middle, refused, -, rfl, rfl⟩ := exists_perform_of_step hstep
  exact tells_report middle _ refused

theorem Settled.of_step (hsettled : history.Settled)
    (hstep : history.step step = .ok (next, report)) : next.Settled := by
  constructor
  · obtain ⟨middle, refused, -, rfl, -⟩ := exists_perform_of_step hstep
    rfl
  · intro hnext
    have hstopped : history.stopped = false := (leads_of_step hstep hnext).1
    have hresting : history.Resting :=
      ⟨hsettled.resting hstopped, hstopped, hsettled.changed_eq⟩
    exact (hresting.step hstep (ne_stop_of_step hstep hnext)).toResting

theorem Settled.reported_eq (hsettled : history.Settled) : history.reported = history := by
  unfold reported
  rw [← hsettled.changed_eq]

theorem Report.Tells.report_eq (htells : report.Tells history) (hsettled : history.Settled) :
    history.report history.playback.performance.log.length history.stopped = report.again := by
  have hchanged : (if history.stopped then none else some history.playback.changed) =
      report.changed.map fun _ => false := by
    rw [hsettled.changed_eq, ← htells.changed_isNone]
    cases report.changed <;> rfl
  unfold History.report Report.again
  rw [htells.screen_eq, htells.now_eq, htells.changed_isNone, hchanged, List.drop_length]

/-- An advance that is not heard leaves the history as it is, whether stopped or not, and nothing
has happened since the last report. -/
theorem Settled.step_extra (hsettled : history.Settled) (htells : report.Tells history)
    (hunheard : history.playback.published.unheard) :
    history.step Slot.extra.step = .ok (history, report.again) := by
  have hreport := htells.report_eq hsettled
  have hreported := hsettled.reported_eq
  cases hstopped : history.stopped with
  | true =>
      rw [hstopped] at hreport
      have hperform : history.perform Slot.extra.step = .ok (history, true) := if_pos hstopped
      simp only [History.step, hperform, bind, Except.bind, pure, Except.pure]
      rw [hreport, hreported]
  | false =>
      rw [hstopped] at hreport
      rw [Slot.step, step_request hstopped,
        (hsettled.resting hstopped).request_advance_eq hunheard]
      show Except.ok (history.reported, history.report _ false) = _
      rw [hreport, hreported]

theorem steps_cons_of_ok (hstep : history.step step = .ok (next, report)) (steps : List Step) :
    history.steps (step :: steps) =
      (next.steps steps).map fun (last, reports) => (last, report :: reports) := by
  rw [History.steps, hstep]
  show (next.steps steps >>= fun result => .ok (result.1, report :: result.2)) = _
  cases next.steps steps <;> rfl

theorem steps_cons_of_error {fault : Fault} (hstep : history.step step = .error fault)
    (steps : List Step) : history.steps (step :: steps) = .error fault := by
  rw [History.steps, hstep]
  rfl

/-- The own steps are answered as they are without the others, and lead to the same history. -/
theorem Settled.steps_map (slots : List Slot) (hsettled : history.Settled)
    (htells : report.Tells history) (hignores : history.ignores slots) :
    history.steps (slots.map Slot.step) =
      (history.steps (slots.filterMap Slot.own?)).map fun (last, reports) =>
        (last, report.spread slots reports) := by
  induction slots generalizing history report with
  | nil => rfl
  | cons slot slots ih =>
      rw [List.map_cons]
      cases slot with
      | extra =>
          obtain ⟨hunheard, hrest⟩ := Bool.and_eq_true_iff.mp hignores
          have hstep := hsettled.step_extra htells hunheard
          rw [steps_cons_of_ok hstep, ih hsettled htells hrest, List.filterMap_cons_none rfl]
          cases history.steps (slots.filterMap Slot.own?) <;> rfl
      | own step =>
          have hown : (Slot.own step :: slots).filterMap Slot.own? =
              step :: slots.filterMap Slot.own? := rfl
          rw [hown, Slot.step]
          cases hstep : history.step step with
          | error fault => rw [steps_cons_of_error hstep, steps_cons_of_error hstep]; rfl
          | ok result =>
              obtain ⟨next, told⟩ := result
              simp only [ignores, hstep] at hignores
              rw [steps_cons_of_ok hstep, steps_cons_of_ok hstep,
                ih (hsettled.of_step hstep) (tells_of_step hstep) hignores]
              cases next.steps (slots.filterMap Slot.own?) <;> rfl

/-! ## How long a pause lasts -/

/-- An alarm becomes pending at the present time: it is pending when the playback has just started,
or it became pending in a step that took no more than a millisecond.  A longer sleep can be cut just
before that time, and at it. -/
inductive Begins (b : Playback) (alarm : Alarm) : History → Prop where
  | first (pending_eq : b.performance.pending = some alarm) : Begins b alarm (opening b)
  | later {steps : List Step} {step : Step} {history next : History} {reports : List Report}
      {report : Report} (steps_eq : (opening b).steps steps = .ok (history, reports))
      (step_eq : history.step step = .ok (next, report)) (stopped_eq : next.stopped = false)
      (short : next.playback.now ≤ history.playback.now + 1)
      (ne : history.playback.performance.pending ≠ some alarm)
      (pending_eq : next.playback.performance.pending = some alarm) : Begins b alarm next

variable {b : Playback} {setup : Setup} {script : Script} {origin : Nat} {alarm : Alarm}
  {armed : Armed}

/-- In a step of no more than a millisecond, nothing is armed but at its end. -/
theorem Resting.armed_of_step (hresting : history.Resting)
    (hstep : history.step step = .ok (next, report)) (hne : step ≠ .stop)
    (hshort : next.playback.now ≤ history.playback.now + 1)
    (harmed : next.playback.armed = some armed) :
    history.playback.armed = some armed ∨
      armed.deadline = next.playback.now * nanosPerMilli + armed.alarm.delay.nanos := by
  obtain ⟨c, -, hnext, hdone⟩ := hresting.exists_of_step hstep hne
  obtain ⟨rfl, -⟩ := Prod.mk.inj hnext
  show _ ∨ armed.deadline = c.now * nanosPerMilli + _
  rcases hdone with ⟨request, -, hrequest⟩ | ⟨millis, -, hsleep⟩
  · obtain ⟨-, hnow⟩ := hresting.resting_of_request hrequest
    rw [hnow]
    exact hresting.armed_of_request hrequest harmed
  · obtain ⟨-, hnow⟩ := hresting.resting_of_sleep hsleep
    have hmillis : millis ≤ 1 := by
      have hle : c.now ≤ history.playback.now + 1 := hshort
      omega
    rw [hnow]
    exact hresting.toResting.armed_of_sleep hmillis hsleep harmed

/-- What is pending in a history was handed out. -/
theorem issued_of_leads (hstart : Playback.start setup script origin = .ok b)
    (hleads : Leads (opening b).playback.toPlayer history.playback.toPlayer)
    (hpending : history.playback.performance.pending = some alarm) :
    history.playback.performance.Issued alarm := by
  obtain ⟨occurrences, hplays⟩ := exists_plays_of_start hstart
  obtain ⟨more, hmore⟩ := hleads setup script occurrences hplays
  exact hmore.faithful.issued_of_pending hpending

theorem Resting.exists_armed (hresting : history.Resting)
    (hpending : history.playback.performance.pending = some alarm) :
    ∃ deadline, history.playback.armed = some ⟨alarm, deadline⟩ := by
  rw [← hresting.armed_eq] at hpending
  obtain ⟨⟨_, deadline⟩, harmed, rfl⟩ := Option.map_eq_some_iff.mp hpending
  exact ⟨deadline, harmed⟩

/-- An alarm that begins is armed, with its delay counted from the present time, and it is seen
through from then on. -/
theorem Begins.seesThrough (hstart : Playback.start setup script origin = .ok b)
    (hbegins : Begins b alarm history) :
    history.Resting ∧ history.playback.SeesThrough
      ⟨alarm, history.playback.now * nanosPerMilli + alarm.delay.nanos⟩ := by
  cases hbegins with
  | first hpending =>
      have hresting := resting_opening hstart
      have hissued := issued_of_leads hstart (Leads.refl _) hpending
      obtain ⟨deadline, harmed⟩ := hresting.exists_armed hpending
      have hdeadline : deadline = alarm.delay.nanos := armed_of_start hstart harmed
      have hnow : (opening b).playback.now = 0 := (resting_of_start hstart).2
      rw [hnow, Nat.zero_mul, Nat.zero_add, ← hdeadline]
      exact ⟨hresting, hissued, .inl harmed⟩
  | @later steps step before _ reports report hsteps hstep hstopped hshort hne hpending =>
      obtain ⟨hbefore_stopped, hlast⟩ := leads_of_step hstep hstopped
      have hleads := (leads_of_steps hsteps hbefore_stopped).2.trans hlast
      have hbefore : before.Resting := resting_of_steps hstart hsteps hbefore_stopped
      have hne_stop : step ≠ .stop := ne_stop_of_step hstep hstopped
      have hresting : history.Resting := hbefore.step hstep hne_stop
      obtain ⟨deadline, harmed⟩ := hresting.exists_armed hpending
      rcases hbefore.armed_of_step hstep hne_stop hshort harmed with hsame | hdeadline
      · exact absurd (hbefore.pending_eq hsame) hne
      · rw [← hdeadline]
        exact ⟨hresting, issued_of_leads hstart hleads hpending, .inl harmed⟩

/-- A pause is seen through while advances come and time passes. -/
theorem Resting.seesThrough_of_steps {position : Nat} {more : List Step} {reports : List Report}
    (hresting : history.Resting) (hsees : history.playback.SeesThrough armed)
    (hpurpose : armed.alarm.purpose = .walkOn position)
    (hmore : ∀ step ∈ more, step = .request .advance ∨ ∃ millis, step = .sleep millis)
    (hsteps : history.steps more = .ok (last, reports)) :
    last.Resting ∧ last.playback.SeesThrough armed := by
  induction more generalizing history reports with
  | nil =>
      obtain ⟨rfl, -⟩ := Prod.mk.inj (Except.ok.inj hsteps)
      exact ⟨hresting, hsees⟩
  | cons step more ih =>
      obtain ⟨hkind, hrest⟩ := List.forall_mem_cons.mp hmore
      obtain ⟨next, report, others, hstep, hsteps, -⟩ := steps_cons_eq_ok hsteps
      have hne : step ≠ .stop := by
        rintro rfl
        simp at hkind
      obtain ⟨c, hc, hnext, hdone⟩ := hresting.exists_of_step hstep hne
      have hnext_sees : next.playback.SeesThrough armed := by
        have hc_sees : c.SeesThrough armed := by
          rcases hdone with ⟨request, rfl, hrequest⟩ | ⟨millis, rfl, hsleep⟩
          · obtain rfl : request = .advance := by simpa using hkind
            exact hsees.advance hresting.toResting hpurpose hrequest
          · exact hsees.runUntil hresting.toAttentive (Nat.le_add_right _ _) hsleep
        obtain ⟨rfl, -⟩ := Prod.mk.inj hnext
        exact ⟨hc_sees.issued, hc_sees.waits_or_over⟩
      exact ih (hresting.step hstep hne) hnext_sees hrest hsteps

theorem settled_opening (hstart : Playback.start setup script origin = .ok b) :
    (opening b).Settled :=
  ⟨rfl, fun _ => (resting_opening hstart).toResting⟩

/-- Advances may be put in, any number of them, wherever the reader is not heard: the other steps
are answered as they are without, and lead to the same history, and behind each advance that is put
in nothing has happened.  A pause is over exactly when its length has passed since it began, however
many advances come meanwhile. -/
theorem unheard_advances_leave_no_trace (hstart : Playback.start setup script origin = .ok b) :
    (∀ slots, (opening b).ignores slots →
      (opening b).steps (slots.map Slot.step) =
        ((opening b).steps (slots.filterMap Slot.own?)).map fun (last, reports) =>
          (last, (History.report { playback := b } 0 false).spread slots reports)) ∧
      ∀ {alarm position history more last reports}, Begins b alarm history →
        alarm.purpose = .walkOn position →
        (∀ step ∈ more, step = .request .advance ∨ ∃ millis, step = .sleep millis) →
        history.steps more = .ok (last, reports) →
        (last.playback.performance.pending = some alarm ↔
          last.playback.now * nanosPerMilli <
            history.playback.now * nanosPerMilli + alarm.delay.nanos) := by
  constructor
  · intro slots hignores
    exact (settled_opening hstart).steps_map slots (tells_report { playback := b } 0 false) hignores
  · intro alarm position history more last reports hbegins hpurpose hmore hsteps
    obtain ⟨hresting, hsees⟩ := hbegins.seesThrough hstart
    obtain ⟨hlast, hlast_sees⟩ := hresting.seesThrough_of_steps hsees hpurpose hmore hsteps
    exact hlast_sees.pending_iff hlast.toResting

/-- A pause of 5 ms begins after 3 ms.  An advance comes at once, and the pause is over after 8 ms;
another one comes behind the end. -/
theorem unheard_advances_leave_no_trace_of_pause :
    ∃ b history last reports, Playback.start {} [.line "A", .pause (.ofMillis 5)] = .ok b ∧
      ((opening b).steps ([.own (.sleep 3), .own (.request .advance), .extra, .own (.sleep 5),
        .extra].map Slot.step) =
        ((opening b).steps [.sleep 3, .request .advance, .sleep 5]).map fun (last, reports) =>
          (last, (History.report { playback := b } 0 false).spread
            [.own (.sleep 3), .own (.request .advance), .extra, .own (.sleep 5), .extra]
            reports)) ∧
      Begins b ⟨0, 0, .ofMillis 5, .walkOn 2⟩ history ∧ history.playback.now = 3 ∧
      history.steps [.request .advance, .sleep 5] = .ok (last, reports) ∧
      last.playback.now = 8 ∧
      (last.playback.performance.pending = some ⟨0, 0, .ofMillis 5, .walkOn 2⟩ ↔
        8 * nanosPerMilli < 3 * nanosPerMilli + (Duration.ofMillis 5).nanos) := by
  have hany : (Playback.start {} [.line "A", .pause (.ofMillis 5)]).toOption.any fun b =>
      (opening b).ignores
        [.own (.sleep 3), .own (.request .advance), .extra, .own (.sleep 5), .extra] ∧
      ((opening b).steps [.sleep 3]).toOption.any fun before =>
        before.1.playback.now = 3 ∧ before.1.playback.performance.pending = none ∧
        (before.1.step (.request .advance)).toOption.any fun begun =>
          begun.1.stopped = false ∧ begun.1.playback.now = 3 ∧
          begun.1.playback.performance.pending = some ⟨0, 0, .ofMillis 5, .walkOn 2⟩ ∧
          (begun.1.steps [.request .advance, .sleep 5]).toOption.any fun done =>
            done.1.playback.now = 8 := by
    decide
  obtain ⟨b, hstart, hany⟩ := exists_ok_of_any hany
  obtain ⟨hignores, hany⟩ := of_decide_eq_true hany
  obtain ⟨⟨before, _⟩, hbefore, hany⟩ := exists_ok_of_any hany
  obtain ⟨hbefore_now, hnone, hany⟩ := of_decide_eq_true hany
  obtain ⟨⟨history, _⟩, hstep, hany⟩ := exists_ok_of_any hany
  obtain ⟨hstopped, hnow, hpending, hany⟩ := of_decide_eq_true hany
  obtain ⟨⟨last, reports⟩, hsteps, hlast⟩ := exists_ok_of_any hany
  have hlast_now : last.playback.now = 8 := of_decide_eq_true hlast
  have hshort : history.playback.now ≤ before.playback.now + 1 :=
    Nat.le_trans (Nat.le_of_eq (hnow.trans hbefore_now.symm)) (Nat.le_succ _)
  have hne : before.playback.performance.pending ≠ some ⟨0, 0, .ofMillis 5, .walkOn 2⟩ :=
    fun hsome => Option.some_ne_none _ (hsome.symm.trans hnone)
  have hbegins : Begins b ⟨0, 0, .ofMillis 5, .walkOn 2⟩ history :=
    .later hbefore hstep hstopped hshort hne hpending
  obtain ⟨hspread, hover⟩ := unheard_advances_leave_no_trace hstart
  have hiff := hover hbegins rfl (by simp) hsteps
  rw [hlast_now, hnow] at hiff
  exact ⟨b, history, last, reports, hstart, hspread _ hignores, hbegins, hnow, hsteps, hlast_now,
    hiff⟩

end History

end Playback

end Typewriter

import Typewriter.Proofs.Performance.Indicators
import Typewriter.Proofs.Performance.Reloading
import Typewriter.Proofs.Playback.Sleeping
import Typewriter.Proofs.Playback.Strokes

/-!
# The timetable of a line

A line that begins to be typed begins with a stroke: its first alarm is armed at the time at which
its first character becomes visible, be it behind a request or behind a pause.  `FreshAt` says so of
a time, and it is kept where the clock does not run on beyond the next alarm, so it holds when the
line is first seen (`StartsTyping.exists_atStroke`).  From then on, and as long as nobody asks for
anything, the strokes come at their times, wherever the sleeps are cut (`Resting.steps_sleeps`).

The main statement is `History.shown_at_every_instant`.
-/

namespace Typewriter

namespace Performance

variable {p q : Performance} {line : String} {alarm : Alarm} {position count : Nat}

theorem Typing.delay_pos (htyping : p.Typing line alarm)
    (hjitter : p.setup.tempo.jitter.nanos < nanosPerMilli) : 0 < alarm.delay.nanos := by
  obtain ⟨c, -, hallows⟩ := htyping.allows
  have hinterval : p.setup.tempo.interval ≠ 0 := of_decide_eq_false htyping.animated
  have hpos : p.setup.tempo.interval.nanos ≠ 0 := fun hzero => hinterval (Duration.ext hzero)
  rw [hallows.nanos_eq hjitter]
  omega

/-- What is seen of a line after so many strokes behind the first. -/
theorem Struck.screen_eq (hstruck : p.Struck line count) (hle : count ≤ line.length - 1) :
    p.screen.text.toList = line.toList.take (1 + count) ∧
      (p.screen.phase = .shown ↔ count = line.length - 1) ∧
      (p.screen.phase = .typing ↔ count < line.length - 1) ∧
      p.screen.display =
        p.screen.text ++ if count < line.length - 1 then p.setup.marker.getD "" else "" := by
  have htext : p.screen.text.toList = line.toList.take (1 + count) := by
    rw [Nat.add_comm]
    exact hstruck.toList_shown
  refine ⟨htext, ?_⟩
  cases hstruck with
  | typing alarm c htyping hrevealed _ _ =>
      have hphase : p.screen.phase = .typing := htyping.phase_eq
      have hlt : count < line.length - 1 := by
        have hrevealed_lt := htyping.revealed_lt
        omega
      refine ⟨?_, iff_of_true hphase hlt, ?_⟩
      · rw [hphase]
        exact iff_of_false nofun (Nat.ne_of_lt hlt)
      · have hlive : p.screen.live = true := htyping.live_eq
        have hmarker : p.screen.marker = p.setup.marker := rfl
        rw [if_pos hlt, Screen.display, hmarker]
        cases p.setup.marker with
        | none => exact (String.append_empty).symm
        | some marker => exact if_pos ⟨hphase, hlive⟩
  | shown hlength hshown =>
      have hphase : p.screen.phase = .shown := hshown.phase_eq
      have heq : count = line.length - 1 := by omega
      refine ⟨iff_of_true hphase heq, ?_, ?_⟩
      · rw [hphase]
        exact iff_of_false nofun (Nat.not_lt.mpr (Nat.le_of_eq heq.symm))
      · rw [if_neg (Nat.not_lt.mpr (Nat.le_of_eq heq.symm)), String.append_empty]
        exact Screen.display_of_phase_ne fun htyping => absurd (hphase.symm.trans htyping) nofun

/-- Where a line begins to be typed, its first character is visible. -/
theorem Arrival.revealed_eq (harrival : Arrival p position q) (htyping : q.Typing line alarm) :
    q.revealed = 1 := by
  cases harrival with
  | line _ _ _ _ _ hbegun =>
      cases hbegun with
      | instant _ heq =>
          rw [heq] at htyping
          exact absurd htyping.phase_eq nofun
      | animated _ htyped => exact htyped.revealed_eq htyping.phase_eq
  | pause _ _ _ _ _ heq =>
      rw [heq] at htyping
      exact absurd htyping.live_eq nofun
  | ending _ heq =>
      have hphase := htyping.phase_eq
      rw [heq, phase_finish] at hphase
      contradiction

/-- A line that is being typed behind a request has just begun, and its alarm is a new one. -/
theorem Course.begins {operation : Operation} (hcourse : Course p operation q)
    (hcoherent : p.Coherent) (hasked : ∀ alarm, operation ≠ .ring alarm)
    (htyping : q.Typing line alarm) : q.revealed = 1 ∧ p.pending ≠ q.pending := by
  cases hcourse with
  | unheard hstill =>
      rcases hstill with ⟨_, _, hpaused⟩ | hended
      · exact absurd (htyping.live_eq.symm.trans hpaused.live_eq) (by decide)
      · exact absurd (htyping.phase_eq.symm.trans hended.phase_eq) (by decide)
  | stale alarm _ => exact absurd rfl (hasked alarm)
  | wholeLine => exact absurd htyping.phase_eq nofun
  | nextChar _ alarm => exact absurd rfl (hasked alarm)
  | wentOn _ _ hshown harrival =>
      refine ⟨harrival.revealed_eq htyping, ?_⟩
      rw [hshown.pending_eq, htyping.pending_eq]
      exact nofun
  | resumed _ alarm => exact absurd rfl (hasked alarm)
  | loaded _ _ harrival =>
      refine ⟨harrival.revealed_eq htyping, fun hsame => ?_⟩
      -- Alarms carry the edition of their script.
      have hbefore : alarm.edition = p.edition :=
        hcoherent.edition_eq_of_pending (hsame.trans htyping.pending_eq)
      have hafter : q.edition = p.edition + 1 := harrival.record_eq.2.2.1
      have hedition := htyping.edition_eq
      omega

end Performance

namespace Playback

open Performance

variable {b next : Playback} {armed : Armed} {time : Nat} {line : String}

/-! ## The first stroke -/

/-- A line that is being typed has begun at a time: its first character is visible, and the alarm
for the next one was armed then. -/
def FreshAt (b : Playback) (time : Nat) : Prop :=
  ∀ line alarm, b.performance.Typing line alarm → b.performance.revealed = 1 ∧
    ∀ armed, b.armed = some armed →
      armed.deadline = time * nanosPerMilli + armed.alarm.delay.nanos

theorem FreshAt.atStroke {alarm : Alarm} (hfresh : b.FreshAt b.now) (hattentive : b.Attentive)
    (hjitter : b.performance.setup.tempo.jitter.nanos < nanosPerMilli)
    (htyping : b.performance.Typing line alarm) : b.AtStroke line 0 := by
  obtain ⟨hrevealed, hdeadline⟩ := hfresh line alarm htyping
  exact ⟨hattentive, htyping.struck hjitter hrevealed, hdeadline⟩

theorem Attentive.setup_eq_of_runUntil (hattentive : b.Attentive)
    (hnext : b.runUntil time = .ok next) : next.performance.setup = b.performance.setup := by
  refine hattentive.of_runUntil (motive := fun p => p.setup = b.performance.setup) ?_ rfl hnext
  intro before rung time armed hattentive harmed hring hsetup
  obtain ⟨-, -, hrung, -⟩ := hattentive.ringAt harmed hring
  exact (hattentive.coherent.course_ring hrung).setup_script_edition.1.trans hsetup

/-- Where the clock does not run on beyond the next alarm, lines only begin at its last time. -/
theorem Attentive.freshAt_of_runUntil (hattentive : b.Attentive)
    (hjitter : b.performance.setup.tempo.jitter.nanos < nanosPerMilli) (hnow : b.now ≤ time)
    (hshort : ∀ armed, b.armed = some armed → time ≤ max b.now armed.due)
    (hfresh : b.FreshAt time) (hnext : b.runUntil time = .ok next) : next.FreshAt time := by
  refine runUntil_induction time
    (motive := fun b result => b.performance.setup.tempo.jitter.nanos < nanosPerMilli →
      b.now ≤ time → (∀ armed, b.armed = some armed → time ≤ max b.now armed.due) →
      b.FreshAt time → ∀ next, result = .ok next → next.FreshAt time)
    ?idle ?broken ?rung b hattentive hjitter hnow hshort hfresh next hnext
  case idle =>
    intro b _ _ _ _ _ hfresh next hnext
    rw [← Except.ok.inj hnext]
    exact hfresh
  case broken =>
    intro _ _ _ _ _ _ _ _ _ _ _ next hnext
    contradiction
  case rung =>
    intro b armed rung result hattentive harmed hdue hring ih hjitter hnow hshort hfresh
    obtain ⟨-, htime, hrung, -⟩ := hattentive.ringAt harmed hring
    have hsetup := (hattentive.coherent.course_ring hrung).setup_script_edition.1
    have hlast : max b.now armed.due = time :=
      Nat.le_antisymm (Nat.max_le.mpr ⟨hnow, hdue⟩) (hshort armed harmed)
    rw [hlast] at hring htime
    refine ih (hsetup ▸ hjitter) (Nat.le_of_eq htime) ?_ ?_
    · intro other _
      rw [htime]
      exact Nat.le_max_left _ _
    · rcases hattentive.coherent.typing_or_paused (hattentive.pending_eq harmed) with
        ⟨line, htyping⟩ | ⟨position, hpaused⟩
      · -- The wait for the second character of a line takes some time.
        have hdeadline := (hfresh line _ htyping).2 armed harmed
        have hpos := htyping.delay_pos hjitter
        have hlt : time < armed.due := (armed.lt_due_iff time).mpr (by omega)
        omega
      · rw [hpaused.ring_eq] at hrung
        intro line alarm htyping
        exact ⟨(arrival_of_walkOn hrung).revealed_eq htyping, fun _ => armed_of_ringAt hring⟩

theorem freshAt_of_start {setup : Setup} {script : Script} {origin : Nat}
    (hjitter : setup.tempo.jitter.nanos < nanosPerMilli)
    (hstart : start setup script origin = .ok b) : b.FreshAt 0 := by
  obtain ⟨p, first, hperformance, harm, hslept⟩ := exists_of_start hstart
  have harrival := arrival_of_start hperformance
  have hattentive := attentive_of_arm (coherent_of_start hperformance) rfl harm
  have hp : first.performance = p := by rw [eq_of_arm harm]; rfl
  have hnow : first.now = 0 := by rw [eq_of_arm harm]; rfl
  have hsetup : first.performance.setup = setup := hp ▸ harrival.record_eq.1
  have hfresh : first.FreshAt 0 := by
    intro line alarm htyping
    rw [hp] at htyping ⊢
    refine ⟨harrival.revealed_eq htyping, fun armed harmed => ?_⟩
    rcases armed_of_arm harm harmed with hbefore | hdeadline
    · contradiction
    · exact hdeadline
  rw [sleep, hnow] at hslept
  exact hattentive.freshAt_of_runUntil (hsetup ▸ hjitter) (Nat.le_of_eq hnow)
    (fun _ _ => Nat.zero_le _) hfresh hslept

theorem Attentive.freshAt_of_request {request : Request} (hattentive : b.Attentive)
    (hjitter : b.performance.setup.tempo.jitter.nanos < nanosPerMilli)
    (hnext : b.request request = .ok next) : next.FreshAt b.now := by
  obtain ⟨went, p, happly, hwent, hslept⟩ := exists_of_request hnext
  have hcourse := hattentive.coherent.course happly
  obtain ⟨hattentive', rfl, hnow⟩ :=
    attentive_of_continueWith (hcourse.coherent hattentive.coherent) hwent
  have hsetup := hcourse.setup_script_edition.1
  have hfresh : went.FreshAt b.now := by
    intro line alarm htyping
    have hasked (alarm : Alarm) : request.operation ≠ .ring alarm := by cases request <;> nofun
    obtain ⟨hrevealed, hnew⟩ := hcourse.begins hattentive.coherent hasked htyping
    refine ⟨hrevealed, fun armed harmed => ?_⟩
    rcases armed_of_continueWith hwent harmed with hbefore | hdeadline
    · exact absurd ((hattentive.pending_eq hbefore).trans (hattentive'.pending_eq harmed).symm) hnew
    · exact hdeadline
  rw [← hnow] at hfresh ⊢
  exact hattentive'.freshAt_of_runUntil (hsetup ▸ hjitter) (Nat.le_refl _)
    (fun _ _ => Nat.le_max_left _ _) hfresh hslept

/-- What is published tells that the line at the cursor is being typed. -/
def TypesLine (b : Playback) (line : String) : Prop :=
  b.published.phase = .typing ∧ b.published.live = true ∧
    b.performance.script.lineAt? b.performance.cursor = some line

instance (b : Playback) (line : String) : Decidable (b.TypesLine line) :=
  inferInstanceAs (Decidable (_ ∧ _ ∧ _))

theorem Attentive.typesLine_iff (hattentive : b.Attentive) :
    b.TypesLine line ↔ ∃ alarm, b.performance.Typing line alarm := by
  unfold TypesLine
  rw [hattentive.published_eq]
  constructor
  · rintro ⟨hphase, hlive, hline⟩
    obtain ⟨other, alarm, htyping⟩ := hattentive.coherent.typing_of_phase_eq hlive hphase
    obtain rfl : other = line := Option.some.inj (htyping.lineAt?_eq.symm.trans hline)
    exact ⟨alarm, htyping⟩
  · rintro ⟨alarm, htyping⟩
    exact ⟨htyping.phase_eq, htyping.live_eq, htyping.lineAt?_eq⟩

/-- If nobody asks for anything, a line begins to be typed after so many milliseconds, and none is
being typed before. -/
structure StartsTyping (b : Playback) (early : Nat) (line : String) : Prop where
  types : ∃ next, b.sleep early = .ok next ∧ next.TypesLine line
  first : ∀ shorter < early, ∀ next other, b.sleep shorter = .ok next → ¬ next.TypesLine other

/-- A line that begins to be typed behind a request begins with a stroke. -/
theorem StartsTyping.exists_atStroke {early : Nat} (hstarts : b.StartsTyping early line)
    (hresting : b.Resting) (hjitter : b.performance.setup.tempo.jitter.nanos < nanosPerMilli)
    (hfresh : b.FreshAt b.now) :
    ∃ next, b.sleep early = .ok next ∧ next.AtStroke line 0 ∧ next.now = b.now + early ∧
      next.performance.setup = b.performance.setup := by
  obtain ⟨⟨next, hnext, htypes⟩, hfirst⟩ := hstarts
  obtain ⟨hresting', hnow⟩ := hresting.resting_of_sleep hnext
  have hsetup : next.performance.setup = b.performance.setup := hresting.setup_eq_of_runUntil hnext
  obtain ⟨alarm, htyping⟩ := hresting'.typesLine_iff.mp htypes
  refine ⟨next, hnext, ?_, hnow, hsetup⟩
  refine FreshAt.atStroke ?_ hresting'.toAttentive (hsetup ▸ hjitter) htyping
  cases early with
  | zero =>
      rw [hresting.sleep_zero] at hnext
      rw [← Except.ok.inj hnext]
      exact hfresh
  | succ early =>
      -- A millisecond before, no line is being typed.
      rw [hresting.sleep_add] at hnext
      obtain ⟨middle, hmiddle, hlast⟩ := bind_eq_ok hnext
      obtain ⟨hmiddle_resting, hmiddle_now⟩ := hresting.resting_of_sleep hmiddle
      have hmiddle_setup : middle.performance.setup = b.performance.setup :=
        hresting.setup_eq_of_runUntil hmiddle
      have hnone : middle.FreshAt (middle.now + 1) := by
        intro other alarm htyping
        exact absurd (hmiddle_resting.typesLine_iff.mpr ⟨alarm, htyping⟩)
          (hfirst early (Nat.lt_succ_self _) middle other hmiddle)
      rw [hnow, ← Nat.add_assoc, ← hmiddle_now]
      refine hmiddle_resting.freshAt_of_runUntil (hmiddle_setup ▸ hjitter) (Nat.le_succ _) ?_ hnone
        hlast
      intro armed harmed
      exact Nat.le_trans (hmiddle_resting.lt_due armed harmed) (Nat.le_max_right _ _)

/-! ## Histories -/

namespace History

variable {history last : History} {setup : Setup} {script : Script} {origin early : Nat}

/-- The history has just begun, or its last step was a request. -/
inductive Prompted (b : Playback) : History → Prop where
  | opening : Prompted b (opening b)
  | request {steps : List Step} {history next : History} {reports : List Report}
      {request : Request} {report : Report}
      (steps_eq : (opening b).steps steps = .ok (history, reports))
      (step_eq : history.step (.request request) = .ok (next, report))
      (stopped_eq : next.stopped = false) : Prompted b next

/-- The setup stays. -/
theorem setup_eq_of_leads (hstart : Playback.start setup script origin = .ok b)
    (hleads : Leads (opening b).playback.toPlayer history.playback.toPlayer) :
    history.playback.performance.setup = setup := by
  obtain ⟨occurrences, hplays⟩ := exists_plays_of_start hstart
  obtain ⟨more, hmore⟩ := hleads setup script occurrences hplays
  obtain ⟨p₀, hperformance, hrun⟩ := hmore.faithful.run_eq
  exact (setup_script_edition_of_run hperformance hrun).1

/-- Behind a request, a line that is being typed has just begun. -/
theorem Prompted.freshAt (hprompted : Prompted b history)
    (hstart : Playback.start setup script origin = .ok b)
    (hjitter : setup.tempo.jitter.nanos < nanosPerMilli) :
    history.Resting ∧ history.playback.FreshAt history.playback.now ∧
      history.playback.performance.setup = setup := by
  cases hprompted with
  | opening =>
      have hfresh : b.FreshAt b.now := by
        rw [(resting_of_start hstart).2]
        exact freshAt_of_start hjitter hstart
      exact ⟨resting_opening hstart, hfresh, setup_eq_of_leads hstart (Leads.refl _)⟩
  | @request steps before _ reports request report hsteps hstep hstopped =>
      obtain ⟨hbefore_stopped, hlast⟩ := leads_of_step hstep hstopped
      have hleads := (leads_of_steps hsteps hbefore_stopped).2
      have hbefore : before.Resting := resting_of_steps hstart hsteps hbefore_stopped
      have hsetup : before.playback.performance.setup = setup := setup_eq_of_leads hstart hleads
      refine ⟨hbefore.step hstep nofun, ?_, setup_eq_of_leads hstart (hleads.trans hlast)⟩
      rw [step_request hbefore_stopped] at hstep
      cases hrequest : before.playback.request request with
      | error fault =>
          rw [hrequest] at hstep
          contradiction
      | ok next =>
          rw [hrequest] at hstep
          obtain ⟨rfl, -⟩ := Prod.mk.inj (Except.ok.inj hstep)
          have hnow : next.now = before.playback.now := (hbefore.resting_of_request hrequest).2
          have hfresh : next.FreshAt next.now := by
            rw [hnow]
            exact hbefore.freshAt_of_request (hsetup ▸ hjitter) hrequest
          exact hfresh

theorem Prompted.origin_eq (hprompted : Prompted b history)
    (hstart : Playback.start setup script origin = .ok b) : history.playback.origin = origin := by
  have hb : b.origin = origin := origin_of_start hstart
  cases hprompted with
  | opening => exact hb
  | @request steps before _ reports request report hsteps hstep hstopped =>
      have hbefore_stopped := (leads_of_step hstep hstopped).1
      have hbefore : before.Resting := resting_of_steps hstart hsteps hbefore_stopped
      have hsame := (resting_opening hstart).origin_eq_of_steps hsteps hbefore_stopped
      exact (hbefore.origin_eq_of_step hstep nofun).trans (hsame.trans hb)

/-- Many sleeps lead to the same history as one of the same length. -/
theorem Resting.steps_sleeps (hresting : history.Resting) (sleeps : List Nat) :
    (history.steps (sleeps.map .sleep)).map Prod.fst =
      (history.step (.sleep sleeps.sum)).map Prod.fst := by
  induction sleeps generalizing history with
  | nil =>
      rw [List.sum_nil, step_sleep hresting.stopped_eq, hresting.sleep_zero]
      show Except.ok history = Except.ok history.reported
      unfold reported
      rw [← hresting.changed_eq]
  | cons millis sleeps ih =>
      rw [List.map_cons, List.sum_cons, hresting.step_sleep_add]
      cases hstep : history.step (.sleep millis) with
      | error fault => rw [steps_cons_of_error hstep]; rfl
      | ok result =>
          obtain ⟨middle, report⟩ := result
          have hrest := ih (hresting.step hstep nofun)
          rw [steps_cons_of_ok hstep]
          dsimp only [Bind.bind, Except.bind]
          cases hfirst : middle.steps (sleeps.map .sleep) with
          | error fault =>
              cases hsecond : middle.step (.sleep sleeps.sum) with
              | error other => rwa [hfirst, hsecond] at hrest
              | ok result => rw [hfirst, hsecond] at hrest; contradiction
          | ok result =>
              cases hsecond : middle.step (.sleep sleeps.sum) with
              | error other => rw [hfirst, hsecond] at hrest; contradiction
              | ok result => rwa [hfirst, hsecond] at hrest

theorem Resting.steps_sleeps_eq_ok_iff (hresting : history.Resting) (sleeps : List Nat) :
    (∃ reports, history.steps (sleeps.map .sleep) = .ok (last, reports)) ↔
      ∃ next, history.playback.sleep sleeps.sum = .ok next ∧ (history.become next).1 = last := by
  rw [← map_fst_eq_ok_iff, hresting.steps_sleeps, step_sleep hresting.stopped_eq]
  cases history.playback.sleep sleeps.sum with
  | error fault => exact iff_of_false nofun fun ⟨_, h, _⟩ => nomatch h
  | ok next => simp [Except.map]

/-- A line that begins to be typed keeps to its timetable, as long as nobody asks for anything.  So
many milliseconds later, however the time was spent in sleeps, it shows its first character and as
many more as there are strokes whose waits fit in, each rounded up to whole milliseconds.  It is
shown in full exactly when all of them do, and being typed before, and only then the marker stands
behind it.  If all its delays fit into durations, and its last stroke comes before the end of the
clock, nothing breaks the sleeps off. -/
theorem shown_at_every_instant {b : Playback} {setup : Setup} {script : Script} {origin : Nat}
    {history : History} {early : Nat} {line : String}
    (hjitter : setup.tempo.jitter.nanos < nanosPerMilli)
    (hstart : Playback.start setup script origin = .ok b) (hprompted : Prompted b history)
    (hstarts : history.playback.StartsTyping early line) :
    2 ≤ line.length ∧ ∃ count : Nat → Nat, Monotone count ∧
      (∀ millis, IsGreatest {k | k ≤ line.length - 1 ∧
        ((line.toList.take k).map setup.tempo.strokeMillis).sum ≤ millis} (count millis)) ∧
      ((∀ c ∈ line.toList,
          nanosPerMilli ∣ setup.tempo.interval.nanos + (setup.tempo.rests.after c).nanos) →
        ∀ millis, IsGreatest {k | k ≤ line.length - 1 ∧ ((line.toList.take k).map fun c =>
          setup.tempo.interval.nanos + (setup.tempo.rests.after c).nanos).sum ≤
            millis * nanosPerMilli} (count millis)) ∧
      (∀ millis (sleeps : List Nat) last reports, sleeps.sum = early + millis →
        history.steps (sleeps.map .sleep) = .ok (last, reports) →
        last.playback.now = history.playback.now + early + millis ∧
          last.playback.published.text.toList = line.toList.take (1 + count millis) ∧
          (last.playback.published.phase = .shown ↔ count millis = line.length - 1) ∧
          (last.playback.published.phase = .typing ↔ count millis < line.length - 1) ∧
          last.playback.published.display = last.playback.published.text ++
            if count millis < line.length - 1 then setup.marker.getD "" else "") ∧
      ((∀ c ∈ line.toList.dropLast,
          setup.tempo.interval.nanos + (setup.tempo.rests.after c).nanos ≤ maxNanos) →
        origin + (history.playback.now + early +
          (line.toList.dropLast.map setup.tempo.strokeMillis).sum) * nanosPerMilli < clockEnd →
        ∀ sleeps : List Nat, early ≤ sleeps.sum →
          ∃ last reports, history.steps (sleeps.map .sleep) = .ok (last, reports)) := by
  obtain ⟨hresting, hfresh, hsetup⟩ := hprompted.freshAt hstart hjitter
  obtain ⟨begun, hbegun, hat, hnow, hbegun_setup⟩ :=
    hstarts.exists_atStroke hresting.toResting (hsetup ▸ hjitter) hfresh
  rw [hsetup] at hbegun_setup
  have hgreatest := setup.tempo.isGreatest_strokesBy line
  refine ⟨?_, setup.tempo.strokesBy line, monotone_waitsOver _, hgreatest,
    Tempo.isGreatest_strokesBy_of_whole, ?_, ?_⟩
  · obtain ⟨next, hnext, htypes⟩ := hstarts.types
    obtain ⟨alarm, htyping⟩ := (hresting.resting_of_sleep hnext).1.typesLine_iff.mp htypes
    have hpos := htyping.revealed_pos
    have hlt := htyping.revealed_lt
    omega
  · intro millis sleeps last reports hsum hsteps
    obtain ⟨next, hslept, rfl⟩ := (hresting.steps_sleeps_eq_ok_iff sleeps).mp ⟨reports, hsteps⟩
    rw [hsum, hresting.sleep_add, hbegun] at hslept
    have hrun : begun.runUntil (begun.now + millis) = .ok next := hslept
    obtain ⟨hstruck, hnext_setup⟩ := hat.struck_of_runUntil (hbegun_setup ▸ hjitter)
      (Nat.le_add_right _ _) hrun
    obtain ⟨hnext, hnext_now⟩ := hat.resting_of_runUntil hrun
    rw [List.drop_zero, hbegun_setup, Nat.add_sub_cancel_left, Nat.zero_add] at hstruck
    obtain ⟨htext, hshown, htypes, hdisplay⟩ := hstruck.screen_eq (hgreatest millis).1.1
    rw [hnext_setup, hbegun_setup] at hdisplay
    rw [← hnext.published_eq] at htext hshown htypes hdisplay
    exact ⟨hnext_now.trans (by rw [hnow]), htext, hshown, htypes, hdisplay⟩
  · intro hfits hclock sleeps hle
    have horigin : begun.origin = origin :=
      (origin_of_runUntil hbegun).trans (hprompted.origin_eq hstart)
    have hclock' : begun.origin + (begun.now + ((line.toList.dropLast.drop 0).map
        begun.performance.setup.tempo.strokeMillis).sum) * nanosPerMilli < clockEnd := by
      rw [List.drop_zero, hbegun_setup, hnow, horigin]
      exact hclock
    obtain ⟨next, hnext⟩ := hat.exists_runUntil (hbegun_setup ▸ hjitter) (hbegun_setup ▸ hfits)
      hclock' (Nat.le_add_right begun.now (sleeps.sum - early))
    have hslept : history.playback.sleep sleeps.sum = .ok next := by
      rw [← Nat.add_sub_cancel' hle, hresting.sleep_add, hbegun]
      exact hnext
    exact ⟨_, (hresting.steps_sleeps_eq_ok_iff sleeps).mpr ⟨next, hslept, rfl⟩⟩

/-- A setup with a rest of 7 ms after each full stop, and a marker. -/
def restAfterFullStop : Setup :=
  { tempo := { rests := ⟨[('.', .ofMillis 7)]⟩ }, marker := some "_" }

/-- A line begins behind a pause of 5 ms.  The first sleep ends in the pause, the second at the very
time of the second character. -/
theorem shown_at_every_instant_of_stroke :
    ∃ b last reports, ∃ count : Nat → Nat,
      Playback.start restAfterFullStop [.pause (.ofMillis 5), .line "a.b"] = .ok b ∧
      (opening b).playback.StartsTyping 5 "a.b" ∧
      (opening b).steps ([3, 52].map .sleep) = .ok (last, reports) ∧
      IsGreatest {k | k ≤ "a.b".length - 1 ∧ (("a.b".toList.take k).map fun c =>
        restAfterFullStop.tempo.interval.nanos +
          (restAfterFullStop.tempo.rests.after c).nanos).sum ≤ 50 * nanosPerMilli} (count 50) ∧
      last.playback.published.text.toList = "a.b".toList.take (1 + count 50) ∧
      last.playback.published.display = "a._" := by
  have hjitter : restAfterFullStop.tempo.jitter.nanos < nanosPerMilli := by decide
  have hall : "a.b".toList.all fun c => nanosPerMilli ∣
      restAfterFullStop.tempo.interval.nanos + (restAfterFullStop.tempo.rests.after c).nanos := by
    decide
  have hwhole : ∀ c ∈ "a.b".toList, nanosPerMilli ∣
      restAfterFullStop.tempo.interval.nanos + (restAfterFullStop.tempo.rests.after c).nanos :=
    fun c hc => of_decide_eq_true (List.all_eq_true.mp hall c hc)
  have hany : (Playback.start restAfterFullStop
      [.pause (.ofMillis 5), .line "a.b"]).toOption.any fun b =>
      decide (((opening b).playback.sleep 5).toOption.any (fun next : Playback =>
          next.TypesLine "a.b") ∧
        (∀ shorter ∈ List.range 5, ((opening b).playback.sleep shorter).toOption.all
          fun next : Playback => next.published.live = false) ∧
        ((opening b).steps ([3, 52].map .sleep)).toOption.any fun done : History × List Report =>
          done.1.playback.published.display = "a._") := by
    decide
  obtain ⟨b, hstart, hany⟩ := exists_ok_of_any hany
  obtain ⟨htypes, hsilent, hdone⟩ := of_decide_eq_true hany
  obtain ⟨next, hnext, htypes⟩ := exists_ok_of_any htypes
  obtain ⟨⟨last, reports⟩, hsteps, hdisplay⟩ := exists_ok_of_any hdone
  have hstarts : (opening b).playback.StartsTyping 5 "a.b" := by
    refine ⟨⟨next, hnext, of_decide_eq_true htypes⟩, ?_⟩
    intro shorter hlt earlier other hslept htypes
    have hlive := hsilent shorter (List.mem_range.mpr hlt)
    rw [hslept] at hlive
    exact absurd (htypes.2.1.symm.trans (of_decide_eq_true hlive)) (by decide)
  obtain ⟨-, count, -, -, hgreatest, hshown, -⟩ :=
    shown_at_every_instant hjitter hstart .opening hstarts
  obtain ⟨-, htext, -⟩ := hshown 50 [3, 52] last reports rfl hsteps
  exact ⟨b, last, reports, count, hstart, hstarts, hsteps, hgreatest hwhole 50, htext,
    of_decide_eq_true hdisplay⟩

end History

end Playback

end Typewriter

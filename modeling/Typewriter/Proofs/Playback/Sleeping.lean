import Typewriter.Proofs.Performance.Traversal
import Typewriter.Proofs.Playback.Resting

/-!
# Sleeping in parts

To let a playback sleep in two parts is the same as to let it sleep once.  Deadlines do not depend
on where the sleep is cut: up to the cut the same alarms ring at the same times, and none that is
armed then is due yet (`Attentive.runUntil_eq_bind`).  What is reported between the two parts is not
reported again, so the reports on them make up the report on the whole (`Report.followedBy`).

The main statement is `History.sleep_in_parts`.
-/

namespace Typewriter

namespace Performance

variable {p q : Performance} {operation : Operation} {position : Nat}

theorem Arrival.log_isPrefix (hphase : p.phase ≠ .ended) (harrival : Arrival p position q) :
    p.log <+: q.log := by
  rw [harrival.log_eq hphase, List.append_assoc]
  exact List.prefix_append _ _

/-- Events are only added. -/
theorem Course.log_isPrefix (hcourse : Course p operation q) : p.log <+: q.log := by
  cases hcourse with
  | unheard => exact List.prefix_rfl
  | stale => exact List.prefix_rfl
  | wholeLine => exact List.prefix_rfl
  | nextChar _ _ _ _ htyped =>
      have hlog : q.log = p.log := htyped.sameRecord.log_eq
      exact hlog ▸ List.prefix_rfl
  | wentOn _ _ hshown harrival => exact harrival.log_isPrefix hshown.between.phase_ne_ended
  | resumed _ _ _ hpaused harrival =>
      have hprefix : p.cancel.log <+: q.log :=
        harrival.log_isPrefix hpaused.between_resumed.phase_ne_ended
      exact hprefix
  | loaded script _ harrival =>
      have hprefix : (p.reload script).log <+: q.log :=
        harrival.log_isPrefix (p.between_reload script).phase_ne_ended
      exact hprefix

end Performance

namespace Playback

variable {b next : Playback} {armed : Armed} {early time : Nat}

/-! ## The clock stops on the way -/

/-- Where no alarm is due, the clock may stop and run on. -/
theorem Attentive.runUntil_now (hattentive : b.Attentive) (hidle : b.Idle early)
    (hnow : b.now ≤ early) (time : Nat) :
    { b with now := early }.runUntil time = b.runUntil time := by
  have hstopped : { b with now := early }.Attentive :=
    ⟨hattentive.coherent, hattentive.armed_eq, hattentive.published_eq⟩
  rcases b.idle_or time with hlate | ⟨armed, harmed, hdue⟩
  · have hlate' : { b with now := early }.Idle time := hlate
    rw [hlate.runUntil_eq, hlate'.runUntil_eq]
  · -- The alarm is still to come in both cases, so it rings at its time.
    have hearly : early < armed.due := hidle armed harmed
    have hmax : max b.now armed.due = armed.due := Nat.max_eq_right (by omega)
    have hmax' : max { b with now := early }.now armed.due = armed.due :=
      Nat.max_eq_right (Nat.le_of_lt hearly)
    rw [hattentive.runUntil_eq harmed hdue, hstopped.runUntil_eq harmed hdue, hmax, hmax']
    rfl

/-- The clock runs up to a time by running up to an earlier one first. -/
theorem Attentive.runUntil_eq_bind (hattentive : b.Attentive) (hnow : b.now ≤ early)
    (hle : early ≤ time) :
    b.runUntil time = b.runUntil early >>= fun next => next.runUntil time := by
  refine runUntil_induction early
    (motive := fun b result => b.now ≤ early →
      b.runUntil time = result >>= fun next => next.runUntil time)
    ?idle ?broken ?rung b hattentive hnow
  case idle =>
    intro b hattentive hidle hnow
    exact (hattentive.runUntil_now hidle hnow time).symm
  case broken =>
    intro b armed fault hattentive harmed hdue hring _
    rw [hattentive.runUntil_eq harmed (Nat.le_trans hdue hle), hring]
  case rung =>
    intro b armed next result hattentive harmed hdue hring ih hnow
    obtain ⟨-, hnext, -⟩ := hattentive.ringAt harmed hring
    rw [← ih (hnext ▸ Nat.max_le.mpr ⟨hnow, hdue⟩),
      hattentive.runUntil_eq harmed (Nat.le_trans hdue hle), hring]
    rfl

theorem Attentive.sleep_add (hattentive : b.Attentive) (few more : Nat) :
    b.sleep (few + more) = b.sleep few >>= fun next => next.sleep more := by
  have hlater : b.now + few ≤ b.now + (few + more) := by omega
  unfold sleep
  rw [hattentive.runUntil_eq_bind (Nat.le_add_right b.now few) hlater]
  cases hnext : b.runUntil (b.now + few) with
  | error fault => rfl
  | ok next =>
      have hnow : next.now = b.now + few := (hattentive.resting_of_runUntil hnext).2
      show next.runUntil _ = next.runUntil _
      rw [hnow, Nat.add_assoc]

/-! ## Changes that are still to be reported -/

/-- The playback with a change of the screen before it, if there was one, still to be reported. -/
def noting (b : Playback) (change : Bool) : Playback :=
  { b with changed := change || b.changed }

theorem publish_noting (b : Playback) (change : Bool) :
    (b.noting change).publish = b.publish.noting change := by
  unfold publish
  by_cases hsame : b.performance.screen = b.published
  · have hsame' : (b.noting change).performance.screen = (b.noting change).published := hsame
    simp only [if_pos hsame, if_pos hsame']
  · have hsame' : (b.noting change).performance.screen ≠ (b.noting change).published := hsame
    simp only [if_neg hsame, if_neg hsame']
    unfold noting
    rw [Bool.or_true]

theorem arm_noting (b : Playback) (change : Bool) :
    (b.noting change).arm = b.arm.map fun next => next.noting change := by
  rw [arm, arm]
  cases hpending : b.performance.pending with
  | none =>
      have hpending' : (b.noting change).performance.pending = none := hpending
      rw [hpending']
      rfl
  | some alarm =>
      have hpending' : (b.noting change).performance.pending = some alarm := hpending
      have harmed : (b.noting change).armed = b.armed := rfl
      have hclock : (b.noting change).clock = b.clock := rfl
      simp only [hpending', harmed, hclock]
      split
      · rfl
      · split
        · rfl
        · rfl

theorem ringAt_noting (b : Playback) (change : Bool) (time : Nat) (armed : Armed) :
    (b.noting change).ringAt time armed =
      (b.ringAt time armed).map fun next => next.noting change := by
  unfold ringAt continueWith
  have hperformance : (b.noting change).performance = b.performance := rfl
  rw [hperformance]
  cases b.performance.ring armed.alarm with
  | error cause => rfl
  | ok performance =>
      dsimp only
      rw [← arm_noting, ← publish_noting]
      rfl

theorem Attentive.runUntil_noting (hattentive : b.Attentive) (change : Bool) (time : Nat) :
    (b.noting change).runUntil time = (b.runUntil time).map fun next => next.noting change := by
  have hnoting {b : Playback} (hattentive : b.Attentive) : (b.noting change).Attentive :=
    ⟨hattentive.coherent, hattentive.armed_eq, hattentive.published_eq⟩
  refine runUntil_induction time
    (motive := fun b result =>
      (b.noting change).runUntil time = result.map fun next => next.noting change)
    ?idle ?broken ?rung b hattentive
  case idle =>
    intro b _ hidle
    have hidle' : (b.noting change).Idle time := hidle
    rw [hidle'.runUntil_eq]
    rfl
  case broken =>
    intro b armed fault hattentive harmed hdue hring
    rw [(hnoting hattentive).runUntil_eq harmed hdue, ringAt_noting]
    show ((b.ringAt (max b.now armed.due) armed).map _ >>= _) = _
    rw [hring]
    rfl
  case rung =>
    intro b armed next result hattentive harmed hdue hring ih
    rw [(hnoting hattentive).runUntil_eq harmed hdue, ringAt_noting, ← ih]
    show ((b.ringAt (max b.now armed.due) armed).map _ >>= _) = _
    rw [hring]
    rfl

theorem Attentive.sleep_noting (hattentive : b.Attentive) (change : Bool) (millis : Nat) :
    (b.noting change).sleep millis = (b.sleep millis).map fun next => next.noting change :=
  hattentive.runUntil_noting change (b.now + millis)

theorem Attentive.log_isPrefix_of_runUntil (hattentive : b.Attentive)
    (hnext : b.runUntil time = .ok next) : b.performance.log <+: next.performance.log := by
  refine hattentive.of_runUntil (motive := fun p => b.performance.log <+: p.log) ?_
    List.prefix_rfl hnext
  intro before rung time armed hattentive harmed hring hlog
  obtain ⟨-, -, hrung, -⟩ := hattentive.ringAt harmed hring
  exact hlog.trans (hattentive.coherent.course_ring hrung).log_isPrefix

/-! ## Histories -/

namespace History

/-- One report in place of two, on steps that follow each other. -/
def Report.followedBy (first second : Report) : Report where
  screen := second.screen
  changed := do return (← first.changed) || (← second.changed)
  now := second.now
  events := first.events ++ second.events
  refused := first.refused || second.refused

variable {history : History}

/-- A report only takes back the mark that the screen has changed. -/
theorem noting_become (history : History) (b : Playback) :
    (history.become b).1.playback.noting b.changed = b := by
  unfold become reported noting
  simp only [Bool.or_false]

/-- What has become of a history on the way is reported first, and the rest behind it. -/
theorem become_eq_followedBy {middle next : Playback} (hstopped : history.stopped = false)
    (hfirst : history.playback.performance.log <+: middle.performance.log)
    (hsecond : middle.performance.log <+: next.performance.log) :
    history.become (next.noting middle.changed) =
      (((history.become middle).1.become next).1,
        (history.become middle).2.followedBy ((history.become middle).1.become next).2) := by
  obtain ⟨playback, stopped⟩ := history
  obtain rfl : stopped = false := hstopped
  obtain ⟨more, hmore⟩ := hfirst
  obtain ⟨rest, hrest⟩ := hsecond
  have hevents : next.performance.log.drop playback.performance.log.length =
      middle.performance.log.drop playback.performance.log.length ++
        next.performance.log.drop middle.performance.log.length := by
    rw [← hrest, ← hmore, List.drop_left, List.append_assoc, List.drop_left, ← List.append_assoc,
      List.drop_left]
  unfold become report Report.followedBy
  refine Prod.ext rfl ?_
  show Report.mk _ _ _ (next.performance.log.drop playback.performance.log.length) _ = _
  rw [hevents]
  rfl

theorem Resting.step_sleep_add (hresting : history.Resting) (few more : Nat) :
    history.step (.sleep (few + more)) = (do
      let (middle, first) ← history.step (.sleep few)
      let (next, second) ← middle.step (.sleep more)
      return (next, first.followedBy second)) := by
  have hstopped : history.stopped = false := hresting.stopped_eq
  rw [step_sleep hstopped, step_sleep hstopped, hresting.sleep_add]
  cases hfew : history.playback.sleep few with
  | error fault => rfl
  | ok middle =>
      have hmiddle : middle.Resting := (hresting.resting_of_sleep hfew).1
      -- The report on the first part takes back its mark, which the whole keeps to the end.
      have hcleared : (history.become middle).1.Resting := .become hstopped hmiddle
      have hmore : middle.sleep more =
          ((history.become middle).1.playback.sleep more).map fun next =>
            next.noting middle.changed := by
        rw [← hcleared.sleep_noting, noting_become]
      show Except.map history.become (middle.sleep more) =
        ((history.become middle).1.step (.sleep more) >>= fun result =>
          .ok (result.1, (history.become middle).2.followedBy result.2))
      rw [hmore, step_sleep hcleared.stopped_eq]
      cases hnext : (history.become middle).1.playback.sleep more with
      | error fault => rfl
      | ok next =>
          have hfirst := hresting.log_isPrefix_of_runUntil hfew
          have hsecond := hcleared.log_isPrefix_of_runUntil hnext
          exact congrArg Except.ok (become_eq_followedBy hstopped hfirst hsecond)

/-- To sleep in two parts is to sleep once: behind it the history is the same, and so is all that is
done and reported later, and the reports on the parts make up the report on the whole.  Whatever was
done to a playback, its pending alarm is armed and no other, for a time to come. -/
theorem sleep_in_parts {b : Playback} {setup : Setup} {script : Script} {origin : Nat}
    {steps : List Step} {reports : List Report}
    (hstart : Playback.start setup script origin = .ok b)
    (hsteps : (opening b).steps steps = .ok (history, reports))
    (hstopped : history.stopped = false) :
    (∀ few more later, history.steps (.sleep (few + more) :: later) = (do
      let (middle, first) ← history.step (.sleep few)
      let (next, second) ← middle.step (.sleep more)
      let (last, rest) ← next.steps later
      return (last, first.followedBy second :: rest))) ∧
      history.playback.armed.map Armed.alarm = history.playback.performance.pending ∧
      ∀ armed, history.playback.armed = some armed →
        history.playback.now * nanosPerMilli < armed.deadline := by
  have hresting : history.Resting := resting_of_steps hstart hsteps hstopped
  refine ⟨?_, hresting.armed_eq, ?_⟩
  · intro few more later
    rw [History.steps, hresting.step_sleep_add]
    cases history.step (.sleep few) with
    | error fault => rfl
    | ok middle =>
        cases middle.1.step (.sleep more) with
        | error fault => simp
        | ok next => simp
  · intro armed harmed
    exact (armed.lt_due_iff _).mp (hresting.lt_due armed harmed)

/-- The sleep is cut at the very time at which the second character is to be typed. -/
theorem sleep_in_parts_of_cut_on_deadline :
    ∃ b history reports, Playback.start {} [.line "Hi!"] = .ok b ∧
      (opening b).steps [.sleep 20] = .ok (history, reports) ∧ history.stopped = false ∧
      history.playback.armed.map Armed.deadline = some ((20 + 30) * nanosPerMilli) ∧
      history.steps [.sleep (30 + 60), .request .advance] = (do
        let (middle, first) ← history.step (.sleep 30)
        let (next, second) ← middle.step (.sleep 60)
        let (last, rest) ← next.steps [.request .advance]
        return (last, first.followedBy second :: rest)) := by
  have hany : (Playback.start {} [.line "Hi!"]).toOption.any fun b =>
      ((opening b).steps [.sleep 20]).toOption.any fun slept =>
        slept.1.stopped = false ∧
          slept.1.playback.armed.map Armed.deadline = some ((20 + 30) * nanosPerMilli) := by
    decide
  obtain ⟨b, hstart, hany⟩ := exists_ok_of_any hany
  obtain ⟨⟨history, reports⟩, hsteps, hfacts⟩ := exists_ok_of_any hany
  obtain ⟨hstopped, hdeadline⟩ := of_decide_eq_true hfacts
  exact ⟨b, history, reports, hstart, hsteps, hstopped, hdeadline,
    (sleep_in_parts hstart hsteps hstopped).1 30 60 [.request .advance]⟩

end History

end Playback

end Typewriter

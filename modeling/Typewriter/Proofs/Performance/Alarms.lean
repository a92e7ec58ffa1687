import Typewriter.Proofs.Performance.Course

/-!
# Alarms act at most once

An alarm is known by its edition and its serial number.  `Issued` says that these were handed out
before, and `Onward` that between two performances the numbers only went up and whatever became
pending had a new one.  Every function that schedules, cancels or restarts goes onward in this
sense, so an alarm that is no longer pending is never pending again.

The main statement is `ring_stale`.  Editions and serial numbers have no upper bound here;
`counters_le_of_run` bounds them by the number of operations, so that 64 bits hold them for fewer
than `2 ^ 64 - 1` operations.
-/

namespace Typewriter

namespace Performance

/-- The edition and the serial number of an alarm were handed out before. -/
def Issued (p : Performance) (alarm : Alarm) : Prop :=
  alarm.edition < p.edition ∨ (alarm.edition = p.edition ∧ alarm.serial < p.nextSerial)

/-- From one performance to a later one, numbers stay handed out, and an alarm that has become
pending has a number that was not. -/
structure Onward (p q : Performance) : Prop where
  issued_mono : ∀ alarm, p.Issued alarm → q.Issued alarm
  pending_new : ∀ alarm, q.pending = some alarm →
    p.pending = some alarm ∨ (¬ p.Issued alarm ∧ q.Issued alarm)

variable {p q r : Performance} {line : String} {alarm : Alarm} {position : Nat}

namespace Onward

theorem refl (p : Performance) : Onward p p :=
  ⟨fun _ hissued => hissued, fun _ hpending => .inl hpending⟩

theorem trans (hpq : Onward p q) (hqr : Onward q r) : Onward p r := by
  refine ⟨fun alarm hissued => hqr.issued_mono alarm (hpq.issued_mono alarm hissued), ?_⟩
  intro alarm hpending
  rcases hqr.pending_new alarm hpending with hq | ⟨hnew, hissued⟩
  · rcases hpq.pending_new alarm hq with hp | ⟨hnew, hissued⟩
    · exact .inl hp
    · exact .inr ⟨hnew, hqr.issued_mono alarm hissued⟩
  · exact .inr ⟨fun hp => hnew (hpq.issued_mono alarm hp), hissued⟩

/-- Nothing is scheduled: the counters stay, and so does the pending alarm, or it is cancelled. -/
theorem of_quiet (hedition : q.edition = p.edition) (hserial : q.nextSerial = p.nextSerial)
    (hpending : q.pending = p.pending ∨ q.pending = none) : Onward p q := by
  constructor
  · intro alarm hissued
    unfold Issued at hissued ⊢
    rw [hedition, hserial]
    exact hissued
  · intro alarm hsome
    rcases hpending with hsame | hnone
    · exact .inl (hsame.symm.trans hsome)
    · rw [hnone] at hsome
      contradiction

theorem schedule (p : Performance) (delay : Duration) (purpose : Purpose) :
    Onward p (p.schedule delay purpose) := by
  constructor
  · rintro alarm (hedition | ⟨hedition, hserial⟩)
    · exact .inl hedition
    · exact .inr ⟨hedition, Nat.lt_succ_of_lt hserial⟩
  · intro alarm hpending
    obtain rfl : ⟨p.edition, p.nextSerial, delay, purpose⟩ = alarm := Option.some.inj hpending
    refine .inr ⟨?_, .inr ⟨rfl, Nat.lt_succ_self _⟩⟩
    rintro (hedition | ⟨-, hserial⟩)
    · exact Nat.lt_irrefl _ hedition
    · exact Nat.lt_irrefl _ hserial

theorem showWhole (p : Performance) (line : String) : Onward p (p.showWhole line) :=
  of_quiet rfl rfl (.inr rfl)

theorem reload (p : Performance) (script : Script) : Onward p (p.reload script) := by
  constructor
  · -- The edition goes up, so all numbers of the old one count as handed out.
    intro alarm hissued
    refine .inl ?_
    show alarm.edition < p.edition + 1
    rcases hissued with hedition | ⟨hedition, -⟩ <;> omega
  · intro alarm hpending
    contradiction

theorem finish (p : Performance) : Onward p p.finish := by
  rcases finish_eq_or p with heq | heq | heq
  · rw [heq]
    exact refl p
  · rw [heq]
    exact of_quiet rfl rfl (.inr rfl)
  · rw [heq]
    exact of_quiet rfl rfl (.inr rfl)

end Onward

theorem Typed.onward (htyped : Typed p line position q) : Onward p q := by
  cases htyped with
  | whole _ heq =>
      rw [heq]
      exact .showWhole p line
  | char c delay _ _ _ heq =>
      have htypeChar : Onward p (p.typeChar c) := .of_quiet rfl rfl (.inl rfl)
      rw [heq]
      exact htypeChar.trans (.schedule _ delay _)

theorem Begun.onward (hbegun : Begun p line position q) : Onward p q := by
  cases hbegun with
  | instant _ heq =>
      have hcursor : Onward p { p with cursor := position } := .of_quiet rfl rfl (.inl rfl)
      rw [heq]
      exact hcursor.trans (.showWhole _ line)
  | animated _ htyped =>
      have hcleared : Onward p
          { p with cursor := position, shown := "", revealed := 0, phase := .typing } :=
        .of_quiet rfl rfl (.inl rfl)
      exact hcleared.trans htyped.onward

theorem Arrival.onward (harrival : Arrival p position q) : Onward p q := by
  have hrecord (live : Bool) : Onward p (p.record (p.walkFrom position) live) :=
    .of_quiet rfl rfl (.inl rfl)
  cases harrival with
  | line _ _ _ _ _ hbegun => exact (hrecord true).trans hbegun.onward
  | pause at_ length _ _ _ heq =>
      rw [heq]
      exact (hrecord false).trans (.schedule _ length _)
  | ending _ heq =>
      rw [heq]
      exact (hrecord true).trans (.finish _)

theorem Course.onward {operation : Operation} (hcourse : Course p operation q) : Onward p q := by
  have hcancel : Onward p p.cancel := .of_quiet rfl rfl (.inr rfl)
  cases hcourse with
  | unheard => exact .refl p
  | stale => exact .refl p
  | wholeLine line => exact .showWhole p line
  | nextChar _ _ _ _ htyped => exact hcancel.trans htyped.onward
  | wentOn _ _ _ harrival => exact harrival.onward
  | resumed _ _ _ _ harrival => exact hcancel.trans harrival.onward
  | loaded script _ harrival => exact (Onward.reload p script).trans harrival.onward

theorem onward_of_run {operations : List Operation} (hcoherent : p.Coherent)
    (hrun : p.run operations = .ok q) : Onward p q := by
  refine run_induction (motive := fun _ q => Onward p q) hcoherent (.refl p) ?_ hrun
  intro operations operation r q _ _ _ hcourse ih
  exact ih.trans hcourse.onward

/-! ## An alarm that has stopped being pending -/

/-- What is pending was handed out. -/
theorem issued_of_pending {setup : Setup} {script : Script} {p₀ : Performance}
    {operations : List Operation} (hstart : start setup script = .ok p₀)
    (hrun : p₀.run operations = .ok p) (hpending : p.pending = some alarm) : p.Issued alarm := by
  have honward : Onward { setup, script } p :=
    (arrival_of_start hstart).onward.trans (onward_of_run (coherent_of_start hstart) hrun)
  rcases honward.pending_new alarm hpending with hnever | ⟨-, hissued⟩
  · contradiction
  · exact hissued

/-- Behind the pending alarm, only an alarm with a new number can be pending. -/
theorem not_issued_of_ring {later : Alarm} (hcoherent : p.Coherent)
    (hpending : p.pending = some alarm) (hring : p.ring alarm = .ok q)
    (hlater : q.pending = some later) : ¬ p.Issued later := by
  have honward : Onward p.cancel q := by
    cases hcoherent.course_ring hring with
    | stale _ hne => exact absurd hpending hne
    | nextChar _ _ _ _ htyped => exact htyped.onward
    | resumed _ _ _ _ harrival => exact harrival.onward
  rcases honward.pending_new later hlater with hcancelled | ⟨hnew, -⟩
  · contradiction
  · exact hnew

/-- Behind another script, no alarm of the old one is pending. -/
theorem not_issued_of_load {script : Script} (hcoherent : p.Coherent)
    (hload : p.load script = .ok q) (hpending : q.pending = some alarm) : ¬ p.Issued alarm := by
  have hcourse : Course p (.load script) q := hcoherent.course hload
  cases hcourse with
  | loaded _ _ harrival =>
      intro hissued
      rcases harrival.onward.pending_new alarm hpending with hreloaded | ⟨hnew, -⟩
      · contradiction
      · exact hnew ((Onward.reload p script).issued_mono alarm hissued)

/-- A number that was handed out and is not pending stays so. -/
theorem Onward.not_pending (honward : Onward p q) (hissued : p.Issued alarm)
    (hstale : p.pending ≠ some alarm) : q.pending ≠ some alarm := by
  intro hpending
  rcases honward.pending_new alarm hpending with hp | ⟨hnew, -⟩
  · exact hstale hp
  · exact hnew hissued

/-- Ringing an alarm that was handed out and is not pending may be left out of all that is done
later. -/
theorem run_filter_ne_ring (hcoherent : p.Coherent) (hissued : p.Issued alarm)
    (hstale : p.pending ≠ some alarm) (operations : List Operation) :
    p.run operations = p.run (operations.filter (· ≠ .ring alarm)) := by
  induction operations generalizing p with
  | nil => rfl
  | cons operation rest ih =>
      by_cases hring : operation = .ring alarm
      · subst hring
        have hsame : p.apply (.ring alarm) = .ok p := ring_of_ne hstale
        rw [run, hsame, List.filter_cons_of_neg (by simp)]
        exact ih hcoherent hissued hstale
      · rw [List.filter_cons_of_pos (by simpa using hring), run, run]
        cases happly : p.apply operation with
        | error fault => rfl
        | ok q =>
            -- The alarm stays handed out, so it is not pending after the operation either.
            have hcourse := hcoherent.course happly
            exact ih (hcourse.coherent hcoherent) (hcourse.onward.issued_mono alarm hissued)
              (hcourse.onward.not_pending hissued hstale)

/-! ## The counters -/

theorem Typed.nextSerial_le (htyped : Typed p line position q) :
    q.nextSerial ≤ p.nextSerial + 1 := by
  cases htyped with
  | whole _ heq => rw [heq]; exact Nat.le_succ _
  | char _ _ _ _ _ heq => rw [heq]; exact Nat.le_refl _

theorem Arrival.nextSerial_le (harrival : Arrival p position q) :
    q.nextSerial ≤ p.nextSerial + 1 := by
  cases harrival with
  | line _ _ _ _ _ hbegun =>
      cases hbegun with
      | instant _ heq => rw [heq]; exact Nat.le_succ _
      | animated _ htyped => exact htyped.nextSerial_le
  | pause _ _ _ _ _ heq => rw [heq]; exact Nat.le_refl _
  | ending _ heq =>
      rw [heq]
      rcases finish_eq_or (p.record (p.walkFrom position) true) with heq | heq | heq
      all_goals
        rw [heq]
        exact Nat.le_succ _

/-- An operation hands out no more than one serial number. -/
theorem Course.nextSerial_le {operation : Operation} (hcourse : Course p operation q) :
    q.nextSerial ≤ p.nextSerial + 1 := by
  cases hcourse with
  | unheard => exact Nat.le_succ _
  | stale => exact Nat.le_succ _
  | wholeLine => exact Nat.le_succ _
  | nextChar _ _ _ _ htyped => exact htyped.nextSerial_le
  | wentOn _ _ _ harrival => exact harrival.nextSerial_le
  | resumed _ _ _ _ harrival => exact harrival.nextSerial_le
  | loaded script _ harrival =>
      exact Nat.le_trans harrival.nextSerial_le (Nat.succ_le_succ (Nat.zero_le _))

/-- The edition and the serial number count no further than the operations. -/
theorem counters_le_of_run {setup : Setup} {script : Script} {p₀ : Performance}
    {operations : List Operation} (hstart : start setup script = .ok p₀)
    (hrun : p₀.run operations = .ok p) :
    p.edition ≤ operations.length ∧ p.nextSerial ≤ operations.length + 1 := by
  constructor
  · obtain ⟨-, -, hedition⟩ := setup_script_edition_of_run hstart hrun
    rw [hedition]
    exact List.countP_le_length
  · refine run_induction (motive := fun operations p => p.nextSerial ≤ operations.length + 1)
      (coherent_of_start hstart) ?nil ?concat hrun
    case nil => exact (arrival_of_start hstart).nextSerial_le
    case concat =>
      intro operations operation r q _ _ _ hcourse ih
      have := hcourse.nextSerial_le
      rw [List.length_append, List.length_singleton]
      omega

/-- Ringing an alarm that is not pending leaves the performance as it is, whatever the alarm is made
of.  The pending alarm stops being pending when it rings, when the line that it types is cut short,
and when another script is loaded.  An alarm that was pending and is so no more is never pending
again, and ringing it any number of times, at any points of what is done later, changes nothing of
that.  All this with counters that count no further than the operations. -/
theorem ring_stale {setup : Setup} {script : Script} {p₀ p : Performance}
    {operations : List Operation} (hstart : start setup script = .ok p₀)
    (hrun : p₀.run operations = .ok p) (alarm : Alarm) :
    (p.pending ≠ some alarm → p.ring alarm = .ok p) ∧
      (p.pending = some alarm →
        (∀ {q}, p.ring alarm = .ok q → q.pending ≠ some alarm) ∧
        (p.live = true → p.phase = .typing → ∃ q, p.advance = .ok q ∧ q.pending = none) ∧
        ∀ {script q}, p.load script = .ok q → q.pending ≠ some alarm) ∧
      (p.pending = some alarm → ∀ {between q}, p.run between = .ok q → q.pending ≠ some alarm →
        (∀ {later r}, q.run later = .ok r → r.pending ≠ some alarm ∧ r.ring alarm = .ok r) ∧
          ∀ later, q.run later = q.run (later.filter (· ≠ .ring alarm))) ∧
      p.edition ≤ operations.length ∧ p.nextSerial ≤ operations.length + 1 := by
  have hp : p.Coherent := coherent_of_run (coherent_of_start hstart) hrun
  refine ⟨ring_of_ne, fun hpending => ⟨?rung, ?cutShort, ?loaded⟩, ?never,
    counters_le_of_run hstart hrun⟩
  case rung =>
    intro q hring hlater
    exact not_issued_of_ring hp hpending hring hlater (issued_of_pending hstart hrun hpending)
  case cutShort =>
    intro hlive hphase
    obtain ⟨line, _, htyping⟩ := hp.typing_of_phase_eq hlive hphase
    exact ⟨_, htyping.advance_eq, rfl⟩
  case loaded =>
    intro script q hload hlater
    exact not_issued_of_load hp hload hlater (issued_of_pending hstart hrun hpending)
  case never =>
    intro hpending between q hbetween hstale
    have hq : q.Coherent := coherent_of_run hp hbetween
    have hissued : q.Issued alarm :=
      (onward_of_run hp hbetween).issued_mono alarm (issued_of_pending hstart hrun hpending)
    constructor
    · intro later r hlater
      have hnever : r.pending ≠ some alarm := (onward_of_run hq hlater).not_pending hissued hstale
      exact ⟨hnever, ring_of_ne hnever⟩
    · exact run_filter_ne_ring hq hissued hstale

/-- The alarm of a line that was cut short is rung at two points of the next line. -/
theorem ring_stale_of_cut_short :
    ∃ p q, start {} [.line "Hello", .line "World"] = .ok p ∧ p.run [] = .ok p ∧
      p.pending = some ⟨0, 0, .ofMillis 50, .typeNext 0⟩ ∧ p.run [.advance] = .ok q ∧
      q.pending ≠ some ⟨0, 0, .ofMillis 50, .typeNext 0⟩ ∧
      q.run [.ring ⟨0, 0, .ofMillis 50, .typeNext 0⟩, .advance,
        .ring ⟨0, 0, .ofMillis 50, .typeNext 0⟩] = q.run [.advance] := by
  have hruns : ∃ p, start {} [.line "Hello", .line "World"] = .ok p ∧
      p.pending = some ⟨0, 0, .ofMillis 50, .typeNext 0⟩ ∧ p.live = true ∧ p.phase = .typing :=
    ⟨_, rfl, by decide, rfl, rfl⟩
  obtain ⟨p, hstart, hpending, hlive, hphase⟩ := hruns
  have hrun : p.run [] = .ok p := rfl
  obtain ⟨-, hstops, hnever, -⟩ := ring_stale hstart hrun ⟨0, 0, .ofMillis 50, .typeNext 0⟩
  obtain ⟨q, hadvance, hnone⟩ := (hstops hpending).2.1 hlive hphase
  have hbetween : p.run [.advance] = .ok q := by
    rw [run, apply, hadvance]
    rfl
  have hstale : q.pending ≠ some ⟨0, 0, .ofMillis 50, .typeNext 0⟩ := by
    rw [hnone]
    exact (Option.some_ne_none _).symm
  have hfilter := (hnever hpending hbetween hstale).2
    [.ring ⟨0, 0, .ofMillis 50, .typeNext 0⟩, .advance, .ring ⟨0, 0, .ofMillis 50, .typeNext 0⟩]
  exact ⟨p, q, hstart, hrun, hpending, hbetween, hstale, by simpa using hfilter⟩

end Performance

end Typewriter

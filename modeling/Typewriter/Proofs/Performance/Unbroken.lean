import Typewriter.Proofs.Options.Delays
import Typewriter.Proofs.Performance.Draining
import Typewriter.Script.Source

/-!
# Performances that do not break off

The only fault of a performance is a delay that is too long.  So if every delay of its tempo fits
into a duration, nothing that is done to it breaks it off.  There is one lemma for each function,
up to `exists_run` for all that can be done one after the other, and `exists_drainsTo_of_onStage`
draws from them that a line on stage can always be drained.

The main statement is `never_breaks_off`: whatever delays a command line asks for, they fit.
-/

namespace Typewriter

namespace Performance

variable {p q r : Performance} {line : String} {alarm : Alarm} {position : Nat}

/-! ## One step at a time -/

theorem exists_typeNext (hfits : p.setup.tempo.Fits) (line : String) (position : Nat) :
    ∃ q, p.typeNext line position = .ok q := by
  unfold typeNext
  split
  · exact ⟨_, rfl⟩
  · split
    · rename_i c rest _
      cases hdelay : p.setup.tempo.delay? (p.setup.noise p.typed) c
          (decide (p.revealed + 1 = line.length)) with
      | none => exact absurd hdelay (hfits _ _ _)
      | some delay => exact ⟨_, by simp only [hdelay]; rfl⟩
    · exact ⟨_, rfl⟩

theorem exists_beginLine (hfits : p.setup.tempo.Fits) (position : Nat) :
    ∃ q, p.beginLine position = .ok q := by
  have hcleared : ({ p with cursor := position, shown := "", revealed := 0, phase := .typing } :
      Performance).setup.tempo.Fits := hfits
  unfold beginLine
  dsimp only
  split
  · exact ⟨_, rfl⟩
  · split
    · exact ⟨_, rfl⟩
    · exact exists_typeNext hcleared _ _

theorem exists_walkOn (hfits : p.setup.tempo.Fits) (position : Nat) :
    ∃ q, p.walkOn position = .ok q := by
  cases hstop : (p.walkFrom position).stop with
  | line at_ =>
      have hrecord : (p.record (p.walkFrom position) true).setup.tempo.Fits := hfits
      rw [walkOn_of_stop_line hstop]
      exact exists_beginLine hrecord at_
  | pause length next => exact ⟨_, walkOn_of_stop_pause hstop⟩
  | ending => exact ⟨_, walkOn_of_stop_ending hstop⟩

theorem exists_advance (hfits : p.setup.tempo.Fits) : ∃ q, p.advance = .ok q := by
  unfold advance
  split
  · split
    · split
      · exact ⟨_, rfl⟩
      · exact ⟨_, rfl⟩
    · exact exists_walkOn hfits _
    · exact ⟨_, rfl⟩
    · exact ⟨_, rfl⟩
  · exact ⟨_, rfl⟩

theorem exists_ring (hfits : p.setup.tempo.Fits) (alarm : Alarm) : ∃ q, p.ring alarm = .ok q := by
  have hcancel : p.cancel.setup.tempo.Fits := hfits
  unfold ring
  split
  · split
    · split
      · exact exists_typeNext hcancel _ _
      · exact ⟨_, rfl⟩
    · exact exists_walkOn hcancel _
  · exact ⟨_, rfl⟩

theorem exists_apply (hfits : p.setup.tempo.Fits) (operation : Operation) :
    ∃ q, p.apply operation = .ok q := by
  cases operation with
  | advance => exact exists_advance hfits
  | load script =>
      have hreload : (p.reload script).setup.tempo.Fits := hfits
      exact exists_walkOn hreload 0
  | ring alarm => exact exists_ring hfits alarm

/-! ## Runs -/

/-- Every operation keeps the setup, and so the delays that fit. -/
theorem exists_run (hcoherent : p.Coherent) (hfits : p.setup.tempo.Fits)
    (operations : List Operation) : ∃ q, p.run operations = .ok q := by
  induction operations generalizing p with
  | nil => exact ⟨p, rfl⟩
  | cons operation operations ih =>
      obtain ⟨next, hnext⟩ := exists_apply hfits operation
      have hcourse := hcoherent.course hnext
      have hsetup : next.setup = p.setup := hcourse.setup_script_edition.1
      obtain ⟨q, hrun⟩ := ih (hcourse.coherent hcoherent) (hsetup ▸ hfits)
      refine ⟨q, ?_⟩
      unfold run
      simp only [hnext, hrun]

/-! ## Draining -/

/-- Ringing the pending alarm again and again, until there is none, leads to the second
performance. -/
inductive DrainsTo : Performance → Performance → Prop where
  | done {p : Performance} (pending_eq : p.pending = none) : DrainsTo p p
  | ring {p next q : Performance} {alarm : Alarm} (pending_eq : p.pending = some alarm)
      (ring_eq : p.ring alarm = .ok next) (rest : DrainsTo next q) : DrainsTo p q

/-- Draining leads to one performance only. -/
theorem DrainsTo.eq (hq : DrainsTo p q) (hr : DrainsTo p r) : q = r := by
  induction hq with
  | done hnone =>
      cases hr with
      | done _ => rfl
      | ring hsome _ _ =>
          rw [hnone] at hsome
          contradiction
  | ring hsome hring _ ih =>
      cases hr with
      | done hnone =>
          rw [hsome] at hnone
          contradiction
      | ring hsome' hring' hrest =>
          obtain rfl : _ = _ := Option.some.inj (hsome.symm.trans hsome')
          obtain rfl : _ = _ := Except.ok.inj (hring.symm.trans hring')
          exact ih hrest

theorem drainsTo_of_drain {limit : Nat} {alarms : List Alarm}
    (hdrain : p.drain limit = .ok (q, alarms)) (hnone : q.pending = none) : DrainsTo p q := by
  induction limit generalizing p alarms with
  | zero =>
      rw [drain_zero, Except.ok.injEq, Prod.mk.injEq] at hdrain
      obtain ⟨rfl, -⟩ := hdrain
      exact .done hnone
  | succ limit ih =>
      cases hpending : p.pending with
      | none =>
          rw [drain_of_pending_eq_none hpending, Except.ok.injEq, Prod.mk.injEq] at hdrain
          obtain ⟨rfl, -⟩ := hdrain
          exact .done hnone
      | some alarm =>
          obtain ⟨next, rest, hring, hrest, -⟩ := drain_succ_of_pending_eq_some hpending hdrain
          exact .ring hpending hring (ih hrest)

/-- So many alarms can ring one after the other. -/
theorem exists_drain (hcoherent : p.Coherent) (hfits : p.setup.tempo.Fits) (limit : Nat) :
    ∃ q alarms, p.drain limit = .ok (q, alarms) := by
  induction limit generalizing p with
  | zero => exact ⟨p, [], drain_zero p⟩
  | succ limit ih =>
      cases hpending : p.pending with
      | none => exact ⟨p, [], drain_of_pending_eq_none hpending _⟩
      | some alarm =>
          obtain ⟨next, hring⟩ := exists_ring hfits alarm
          have hcourse := hcoherent.course_ring hring
          have hsetup : next.setup = p.setup := hcourse.setup_script_edition.1
          obtain ⟨q, alarms, hdrain⟩ := ih (hcourse.coherent hcoherent) (hsetup ▸ hfits)
          refine ⟨q, alarm :: alarms, ?_⟩
          unfold drain
          simp only [hpending, hring, hdrain]

theorem cursor_sameRecord_of_uncounted_eq
    (heq : q.uncounted = (p.showWhole line).uncounted) : q.cursor = p.cursor ∧ SameRecord p q := by
  have hcursor : q.uncounted.cursor = (p.showWhole line).uncounted.cursor := by rw [heq]
  have hsetup : q.uncounted.setup = (p.showWhole line).uncounted.setup := by rw [heq]
  have hscript : q.uncounted.script = (p.showWhole line).uncounted.script := by rw [heq]
  have hedition : q.uncounted.edition = (p.showWhole line).uncounted.edition := by rw [heq]
  have htrail : q.uncounted.trail = (p.showWhole line).uncounted.trail := by rw [heq]
  have hlog : q.uncounted.log = (p.showWhole line).uncounted.log := by rw [heq]
  exact ⟨hcursor, hsetup, hscript, hedition, htrail, hlog⟩

/-- A line on stage can be drained until it is shown in full, and nothing else happens. -/
theorem exists_drainsTo_of_onStage (hstage : p.OnStage line) (hfits : p.setup.tempo.Fits) :
    ∃ q, DrainsTo p q ∧ q.Shown line ∧ q.cursor = p.cursor ∧ SameRecord p q := by
  cases hstage with
  | shown hshown => exact ⟨p, .done hshown.pending_eq, hshown, rfl, .refl p⟩
  | typing alarm htyping =>
      -- As many alarms as the line has characters are enough.
      obtain ⟨q, alarms, hdrain⟩ := exists_drain (.typing line alarm htyping) hfits line.length
      obtain ⟨hstage, hwhole, henough⟩ := htyping.onStage_of_drain hdrain
      have hnone : q.pending = none := henough (Nat.le_add_left _ _)
      have hshown : q.Shown line := hstage.shown_of_pending hnone
      rw [hshown.showWhole_eq] at hwhole
      exact ⟨q, drainsTo_of_drain hdrain hnone, hshown, cursor_sameRecord_of_uncounted_eq hwhole⟩

/-! ## The command line -/

/-- A performance with the options of a command line never breaks off, whatever its script, and
whoever reads the arguments, as long as rests are read as `readRest` does.  The jitter that was
asked for is cut off nowhere, its amounts fit into a duration together with the interval and any
rest, and so every delay is their sum. -/
theorem never_breaks_off {reader : List String → Except Options.Refusal Options}
    (hreader : Options.ReadsRests reader) {arguments : List String} {options : Options}
    (hoptions : reader arguments = .ok options) :
    (options.setup.tempo.jitter.wholeMillis = options.jitter.toNat ∧
        options.setup.tempo.jitterLimit = options.jitter.toNat ∧
        ∀ amount, (∃ draw, options.setup.tempo.jitterAmount draw = .ofMillis amount) ↔
          amount ≤ options.jitter) ∧
      (∀ c, ∀ amount ≤ options.jitter,
        options.setup.tempo.interval.nanos + (options.setup.tempo.rests.after c).nanos +
          (Duration.ofMillis amount).nanos ≤ maxNanos) ∧
      (∀ draw c isLast, ∃ delay, options.setup.tempo.delay? draw c isLast = some delay ∧
        delay.nanos = options.setup.tempo.interval.nanos +
          (if isLast then 0 else (options.setup.tempo.rests.after c).nanos) +
          (options.setup.tempo.jitterAmount draw).nanos) ∧
      ∀ noise script, ∃ p, start { options.setup with noise := noise } script = .ok p ∧
        ∀ operations, ∃ q, p.run operations = .ok q := by
  have hrests : Options.AreRead options.rests := hreader arguments options hoptions
  refine ⟨⟨Duration.wholeMillis_ofMillis options.jitter, Options.jitterLimit_setup options,
      fun amount => Options.exists_jitterAmount_iff⟩,
    fun c amount _ => Options.nanos_add_le_maxNanos hrests c amount,
    fun draw c => Tempo.exists_delay?_of_le (Options.nanos_add_le_maxNanos hrests c _),
    fun noise script => ?_⟩
  have hfits : options.setup.tempo.Fits := Options.fits_of_areRead hrests
  have hinitial : ({ setup := { options.setup with noise := noise }, script } :
      Performance).setup.tempo.Fits := hfits
  obtain ⟨p, hstart⟩ := exists_walkOn hinitial 0
  have hsetup : p.setup = { options.setup with noise := noise } :=
    (arrival_of_start hstart).record_eq.1
  have hkept : p.setup.tempo.Fits := by
    rw [hsetup]
    exact hfits
  exact ⟨p, hstart, exists_run (coherent_of_start hstart) hkept⟩

/-- The longest delays that a command line can ask for, with draws that use the whole jitter. -/
theorem never_breaks_off_of_longest_delays :
    ∃ options script,
      Options.ofArguments ["--script", "a.script", "--speed", "18446744073709551615",
        "--delay=.=18446744073709551615", "--jitter", "18446744073709551615"] = .ok options ∧
      Script.read "say \"Hi. Go.\"" = .ok script ∧
      ∃ p, start { options.setup with noise := fun _ => 18446744073709551615 } script = .ok p ∧
        ∀ operations, ∃ q, p.run operations = .ok q := by
  have hoptions : ∃ options,
      Options.ofArguments ["--script", "a.script", "--speed", "18446744073709551615",
        "--delay=.=18446744073709551615", "--jitter", "18446744073709551615"] = .ok options :=
    ⟨_, rfl⟩
  obtain ⟨options, hoptions⟩ := hoptions
  exact ⟨options, _, hoptions, rfl,
    (never_breaks_off Options.readsRests_ofArguments hoptions).2.2.2 _ _⟩

end Performance

end Typewriter

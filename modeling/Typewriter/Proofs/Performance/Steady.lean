import Typewriter.Performance.Screen
import Typewriter.Proofs.Performance.Reloading

/-!
# Pace and decoration

The interval, the jitter, the rests, the draws and the marker say when characters appear and what
stands behind them.  `Performance.steady` forgets them: of the tempo it keeps only whether lines
appear at once, of the setup besides that only the handler and whether the end is announced, and of
an alarm for a character all but its delay.  Whatever a performance does, its steady version does
too (`steady_performAll`), so what is left of two performances stays the same if it was the same in
their setups.

The main statement is `agree_but_for_pace`.
-/

namespace Typewriter

/-- A tempo without its amounts: it is left whether lines appear at once. -/
def Tempo.steady (tempo : Tempo) : Tempo where
  interval := if tempo.isInstant then 0 else .ofMillis 1

/-- A setup without pace and decoration. -/
def Setup.steady (setup : Setup) : Setup where
  tempo := setup.tempo.steady
  customHandler := some setup.handler
  announcesEnd := setup.announcesEnd

/-- An alarm as a tempo without jitter and rests sets it. -/
def Alarm.steady (tempo : Tempo) (alarm : Alarm) : Alarm :=
  match alarm.purpose with
  | .typeNext _ => { alarm with delay := tempo.interval }
  | .walkOn _ => alarm

/-- Two alarms are the same, but for the delay after a character. -/
structure Alarm.SameButDelay (a b : Alarm) : Prop where
  edition_eq : b.edition = a.edition
  serial_eq : b.serial = a.serial
  purpose_eq : b.purpose = a.purpose
  delay_eq : ∀ next, a.purpose = .walkOn next → b.delay = a.delay

theorem Tempo.isInstant_steady (tempo : Tempo) : tempo.steady.isInstant = tempo.isInstant := by
  unfold steady
  split
  · simp_all [isInstant]
  · have hne : Duration.ofMillis 1 ≠ 0 := by decide
    simp_all [isInstant]

theorem Tempo.delay?_steady (tempo : Tempo) (draw : Nat) (c : Char) :
    tempo.steady.delay? draw c false = some tempo.steady.interval := by
  have hjitter : tempo.steady.jitter.nanos < nanosPerMilli := Nat.succ_pos _
  rw [delay?_of_jitter_lt hjitter]
  exact Duration.add?_eq_some_iff.mpr rfl

/-- Nothing of a steady setup hangs on pace, decoration, or choices that a custom handler leaves
without effect. -/
theorem Setup.steady_eq {a b : Setup} (hinstant : b.tempo.isInstant = a.tempo.isInstant)
    (hend : b.announcesEnd = a.announcesEnd) (hcustom : b.customHandler = a.customHandler)
    (hbook : a.customHandler = none →
      b.delimiter = a.delimiter ∧ b.hearsAlerts = a.hearsAlerts) : b.steady = a.steady := by
  have hhandler : b.handler = a.handler := by
    unfold handler book
    rw [hcustom]
    cases h : a.customHandler with
    | some handler => rfl
    | none =>
        obtain ⟨hdelimiter, halerts⟩ := hbook h
        rw [hdelimiter, halerts]
  unfold steady Tempo.steady
  rw [hinstant, hend, hhandler]

namespace Alarm

theorem steady_of_walkOn {tempo : Tempo} {alarm : Alarm} {next : Nat}
    (hpurpose : alarm.purpose = .walkOn next) : alarm.steady tempo = alarm := by
  unfold steady
  rw [hpurpose]

theorem edition_steady (tempo : Tempo) (alarm : Alarm) :
    (alarm.steady tempo).edition = alarm.edition := by
  unfold steady
  split <;> rfl

theorem serial_steady (tempo : Tempo) (alarm : Alarm) :
    (alarm.steady tempo).serial = alarm.serial := by
  unfold steady
  split <;> rfl

theorem purpose_steady (tempo : Tempo) (alarm : Alarm) :
    (alarm.steady tempo).purpose = alarm.purpose := by
  unfold steady
  split <;> rfl

theorem sameButDelay_of_steady_eq {tempo tempo' : Tempo} {a b : Alarm}
    (heq : b.steady tempo' = a.steady tempo) : SameButDelay a b := by
  have hpurpose : b.purpose = a.purpose := by
    rw [← purpose_steady tempo', heq, purpose_steady]
  refine ⟨?_, ?_, hpurpose, ?_⟩
  · rw [← edition_steady tempo', heq, edition_steady]
  · rw [← serial_steady tempo', heq, serial_steady]
  · intro next hnext
    rw [steady_of_walkOn hnext, steady_of_walkOn (hpurpose.trans hnext)] at heq
    rw [heq]

end Alarm

namespace Performance

/-- A performance without pace and decoration. -/
def steady (p : Performance) : Performance :=
  { p with
    setup := p.setup.steady
    pending := p.pending.map (Alarm.steady p.setup.tempo.steady) }

variable {p q : Performance}

/-! ## Small changes -/

theorem steady_finish (p : Performance) : p.steady.finish = p.finish.steady := by
  by_cases hphase : p.phase = .ended
  · have hphase' : p.steady.phase = .ended := hphase
    rw [finish, finish, if_pos hphase, if_pos hphase']
  · have hphase' : p.steady.phase ≠ .ended := hphase
    cases hend : p.setup.announcesEnd with
    | true =>
        have hend' : p.steady.setup.announcesEnd = true := hend
        rw [finish_of_announcesEnd hphase hend, finish_of_announcesEnd hphase' hend']
        rfl
    | false =>
        have hend' : p.steady.setup.announcesEnd = false := hend
        rw [finish_of_not_announcesEnd hphase hend, finish_of_not_announcesEnd hphase' hend']
        rfl

/-! ## What can break off -/

theorem steady_typeNext {line : String} {position : Nat}
    (hnext : p.typeNext line position = .ok q) :
    p.steady.typeNext line position = .ok q.steady := by
  have hrevealed : p.steady.revealed = p.revealed := rfl
  have hshown : p.steady.shown = p.shown := rfl
  unfold typeNext at hnext ⊢
  rw [hrevealed, hshown]
  by_cases hle : line.length ≤ p.revealed + 1
  · rw [if_pos hle] at hnext ⊢
    rw [← Except.ok.inj hnext]
    rfl
  · rw [if_neg hle] at hnext ⊢
    have hlast : p.revealed + 1 ≠ line.length := by omega
    cases hrest : Text.afterBytes? p.shown.utf8ByteSize line.toList with
    | none =>
        simp only [hrest] at hnext ⊢
        rw [← Except.ok.inj hnext]
        rfl
    | some rest =>
        cases rest with
        | nil =>
            simp only [hrest] at hnext ⊢
            rw [← Except.ok.inj hnext]
            rfl
        | cons c rest =>
            have hsteady :
                p.steady.setup.tempo.delay? (p.steady.setup.noise p.steady.typed) c false =
                  some p.setup.tempo.steady.interval := p.setup.tempo.delay?_steady _ c
            simp only [hrest, hlast, decide_false, hsteady] at hnext ⊢
            -- The delays may differ, but the steady alarm forgets them.
            cases hdelay : p.setup.tempo.delay? (p.setup.noise p.typed) c false with
            | none => simp [hdelay] at hnext
            | some delay =>
                simp only [hdelay] at hnext
                rw [← Except.ok.inj hnext]
                rfl

theorem steady_beginLine {position : Nat} (hbegin : p.beginLine position = .ok q) :
    p.steady.beginLine position = .ok q.steady := by
  have hinstant : p.steady.setup.tempo.isInstant = p.setup.tempo.isInstant :=
    p.setup.tempo.isInstant_steady
  have hscript : p.steady.script = p.script := rfl
  unfold beginLine at hbegin ⊢
  simp only [hinstant, hscript] at hbegin ⊢
  cases hline : p.script.lineAt? position with
  | none =>
      simp only [hline] at hbegin ⊢
      rw [← Except.ok.inj hbegin]
      rfl
  | some line =>
      simp only [hline] at hbegin ⊢
      cases htempo : p.setup.tempo.isInstant with
      | true =>
          simp only [htempo, if_true] at hbegin ⊢
          rw [← Except.ok.inj hbegin]
          rfl
      | false =>
          simp only [htempo, Bool.false_eq_true, if_false] at hbegin ⊢
          exact steady_typeNext hbegin

theorem steady_walkOn {position : Nat} (hwalk : p.walkOn position = .ok q) :
    p.steady.walkOn position = .ok q.steady := by
  -- The handler is the same, and so is the walk.
  have hfrom : p.steady.walkFrom position = p.walkFrom position := rfl
  cases hstop : (p.walkFrom position).stop with
  | line at_ =>
      rw [walkOn_of_stop_line hstop] at hwalk
      rw [walkOn_of_stop_line (hfrom ▸ hstop)]
      exact steady_beginLine hwalk
  | pause length next =>
      rw [walkOn_of_stop_pause hstop] at hwalk
      rw [walkOn_of_stop_pause (hfrom ▸ hstop), ← Except.ok.inj hwalk]
      rfl
  | ending =>
      rw [walkOn_of_stop_ending hstop] at hwalk
      rw [walkOn_of_stop_ending (hfrom ▸ hstop), ← Except.ok.inj hwalk, ← steady_finish]
      rfl

/-! ## Signals -/

theorem steady_start {setup : Setup} {script : Script} (hstart : start setup script = .ok p) :
    start setup.steady script = .ok p.steady :=
  steady_walkOn hstart

theorem steady_advance (hadvance : p.advance = .ok q) : p.steady.advance = .ok q.steady := by
  have hlive : p.steady.live = p.live := rfl
  have hphase : p.steady.phase = p.phase := rfl
  unfold advance at hadvance ⊢
  rw [hlive, hphase]
  cases hheard : p.live with
  | false =>
      simp only [hheard, Bool.false_eq_true, if_false] at hadvance ⊢
      rw [← Except.ok.inj hadvance]
  | true =>
      simp only [hheard, if_true] at hadvance ⊢
      cases hmode : p.phase with
      | typing =>
          have hline : p.steady.script.lineAt? p.steady.cursor = p.script.lineAt? p.cursor := rfl
          simp only [hmode, hline] at hadvance ⊢
          cases hcue : p.script.lineAt? p.cursor with
          | none =>
              simp only [hcue] at hadvance ⊢
              rw [← Except.ok.inj hadvance]
          | some line =>
              simp only [hcue] at hadvance ⊢
              rw [← Except.ok.inj hadvance]
              rfl
      | waiting =>
          simp only [hmode] at hadvance ⊢
          rw [← Except.ok.inj hadvance]
      | shown =>
          simp only [hmode] at hadvance ⊢
          exact steady_walkOn hadvance
      | ended =>
          simp only [hmode] at hadvance ⊢
          rw [← Except.ok.inj hadvance]

theorem steady_ring {alarm : Alarm} (hpending : p.pending = some alarm)
    (hring : p.ring alarm = .ok q) :
    p.steady.ring (alarm.steady p.setup.tempo.steady) = .ok q.steady := by
  have hpending' : p.steady.pending = some (alarm.steady p.setup.tempo.steady) := by
    rw [steady, hpending, Option.map_some]
  have hedition : (alarm.steady p.setup.tempo.steady).edition = p.steady.edition ↔
      alarm.edition = p.edition := by
    rw [Alarm.edition_steady]
    rfl
  unfold ring at hring ⊢
  by_cases hsame : alarm.edition = p.edition
  · rw [if_pos ⟨hsame, hpending⟩] at hring
    rw [if_pos ⟨hedition.mpr hsame, hpending'⟩, Alarm.purpose_steady]
    cases hpurpose : alarm.purpose with
    | typeNext position =>
        have hscript : p.steady.script = p.script := rfl
        simp only [hpurpose, hscript] at hring ⊢
        cases hline : p.script.lineAt? position with
        | none =>
            simp only [hline] at hring ⊢
            rw [← Except.ok.inj hring]
            rfl
        | some line =>
            simp only [hline] at hring ⊢
            exact steady_typeNext hring
    | walkOn position =>
        simp only [hpurpose] at hring ⊢
        exact steady_walkOn hring
  · rw [if_neg fun h => hsame h.1] at hring
    rw [if_neg fun h => hsame (hedition.mp h.1), ← Except.ok.inj hring]

theorem steady_ringPending (hring : p.ringPending = .ok q) :
    p.steady.ringPending = .ok q.steady := by
  unfold ringPending at hring ⊢
  cases hpending : p.pending with
  | none =>
      have hpending' : p.steady.pending = none := by rw [steady, hpending, Option.map_none]
      simp only [hpending, hpending'] at hring ⊢
      rw [← Except.ok.inj hring]
  | some alarm =>
      have hpending' : p.steady.pending = some (alarm.steady p.setup.tempo.steady) := by
        rw [steady, hpending, Option.map_some]
      simp only [hpending, hpending'] at hring ⊢
      exact steady_ring hpending hring

theorem steady_perform {signal : Signal} (hperform : p.perform signal = .ok q) :
    p.steady.perform signal = .ok q.steady := by
  cases signal with
  | advance => exact steady_advance hperform
  | ringPending => exact steady_ringPending hperform
  | load script => exact steady_walkOn hperform

/-- What a performance does, it does without pace and decoration too. -/
theorem steady_performAll {signals : List Signal} (hrun : p.performAll signals = .ok q) :
    p.steady.performAll signals = .ok q.steady := by
  induction signals generalizing p with
  | nil =>
      rw [← Except.ok.inj hrun]
      rfl
  | cons signal rest ih =>
      rw [performAll_cons] at hrun ⊢
      obtain ⟨next, hperform, hrest⟩ := bind_eq_ok hrun
      rw [steady_perform hperform]
      exact ih hrest

theorem pending_rel_of_steady_eq (heq : q.steady = p.steady) :
    Option.Rel Alarm.SameButDelay p.pending q.pending := by
  have hpending : q.pending.map (Alarm.steady q.setup.tempo.steady) =
      p.pending.map (Alarm.steady p.setup.tempo.steady) := congrArg Performance.pending heq
  cases hp : p.pending with
  | none =>
      rw [hp, Option.map_none, Option.map_eq_none_iff] at hpending
      rw [hpending]
      exact .none
  | some alarm =>
      rw [hp, Option.map_some, Option.map_eq_some_iff] at hpending
      obtain ⟨alarm', hq, hsteady⟩ := hpending
      rw [hq]
      exact .some (Alarm.sameButDelay_of_steady_eq hsteady)

/-- On one script, two setups that both type or both show at once, with the same word on the end and
the same handler, lead to the same after any signals that break neither performance off: the amount
of the interval, the jitter with all its draws, the rests and the marker have no influence on the
text, the phase, the heed for the reader, the cursor, the count, the edition, the sign to go on, the
visits and the log.  One alarm is pending or none in both, and it differs in nothing but the delay
after a character.  Under a custom handler, the delimiter and the hearing of alerts do not count. -/
theorem agree_but_for_pace {a b : Setup} {script : Script} {p₀ p q₀ q : Performance}
    {signals : List Signal} (hinstant : b.tempo.isInstant = a.tempo.isInstant)
    (hend : b.announcesEnd = a.announcesEnd) (hcustom : b.customHandler = a.customHandler)
    (hbook : a.customHandler = none →
      b.delimiter = a.delimiter ∧ b.hearsAlerts = a.hearsAlerts)
    (hstart : start a script = .ok p₀) (hrun : p₀.performAll signals = .ok p)
    (hstart' : start b script = .ok q₀) (hrun' : q₀.performAll signals = .ok q) :
    q.shown = p.shown ∧ q.phase = p.phase ∧ q.live = p.live ∧ q.cursor = p.cursor ∧
      q.revealed = p.revealed ∧ q.edition = p.edition ∧
      q.screen.hasMore = p.screen.hasMore ∧ q.trail = p.trail ∧ q.log = p.log ∧
      Option.Rel Alarm.SameButDelay p.pending q.pending := by
  have hsetup : b.steady = a.steady := Setup.steady_eq hinstant hend hcustom hbook
  -- Both steady performances are the one that the common steady setup leads to.
  have hstart_eq : q₀.steady = p₀.steady := by
    have hsteady := steady_start hstart'
    rw [hsetup, steady_start hstart] at hsteady
    exact (Except.ok.inj hsteady).symm
  have heq : q.steady = p.steady := by
    have hsteady := steady_performAll hrun'
    rw [hstart_eq, steady_performAll hrun] at hsteady
    exact (Except.ok.inj hsteady).symm
  obtain ⟨-, -, hedition, hcursor, hshown, hrevealed, hphase, hlive, -, -, -, htrail, hlog⟩ :=
    Performance.mk.inj heq
  refine ⟨hshown, hphase, hlive, hcursor, hrevealed, hedition, ?_, htrail, hlog,
    pending_rel_of_steady_eq heq⟩
  unfold Screen.hasMore screen
  rw [hphase]

/-- Another interval, a rest, a jitter with noise and a marker, with a line cut short and a pause
behind an alert. -/
theorem agree_but_for_pace_of_noise :
    ∃ a b script signals p₀ p q₀ q,
      a = { hearsAlerts := true } ∧
      b = { tempo := ⟨.ofMillis 7, .ofMillis 3, .ofList [('y', .ofMillis 400)]⟩
            hearsAlerts := true, marker := some "_", noise := fun n => n } ∧
      script = [.line "alert x", .line "Hey", .pause (.ofMillis 5), .line "you"] ∧
      signals = [.ringPending, .advance, .advance, .ringPending] ∧
      start a script = .ok p₀ ∧ p₀.performAll signals = .ok p ∧
      start b script = .ok q₀ ∧ q₀.performAll signals = .ok q ∧
      p.pending = some ⟨0, 3, .ofMillis 50, .typeNext 3⟩ ∧
      q.pending = some ⟨0, 3, .ofMillis 409, .typeNext 3⟩ ∧
      q.shown = p.shown ∧ q.phase = p.phase ∧ q.log = p.log ∧
      Option.Rel Alarm.SameButDelay p.pending q.pending := by
  have hruns : ∃ a b script signals p₀ p q₀ q,
      a = { hearsAlerts := true } ∧
      b = { tempo := ⟨.ofMillis 7, .ofMillis 3, .ofList [('y', .ofMillis 400)]⟩
            hearsAlerts := true, marker := some "_", noise := fun n => n } ∧
      script = [.line "alert x", .line "Hey", .pause (.ofMillis 5), .line "you"] ∧
      signals = [.ringPending, .advance, .advance, .ringPending] ∧
      start a script = .ok p₀ ∧ p₀.performAll signals = .ok p ∧
      start b script = .ok q₀ ∧ q₀.performAll signals = .ok q ∧
      p.pending = some ⟨0, 3, .ofMillis 50, .typeNext 3⟩ ∧
      q.pending = some ⟨0, 3, .ofMillis 409, .typeNext 3⟩ :=
    ⟨_, _, _, _, _, _, _, _, rfl, rfl, rfl, rfl, rfl, rfl, rfl, rfl, by decide, by decide⟩
  obtain ⟨a, b, script, signals, p₀, p, q₀, q, ha, hb, hscript, hsignals, hstart, hrun,
    hstart', hrun', hp, hq⟩ := hruns
  have hinstant : b.tempo.isInstant = a.tempo.isInstant := by
    rw [ha, hb]
    decide
  have hend : b.announcesEnd = a.announcesEnd := by rw [ha, hb]
  have hcustom : b.customHandler = a.customHandler := by rw [ha, hb]
  have hbook : a.customHandler = none →
      b.delimiter = a.delimiter ∧ b.hearsAlerts = a.hearsAlerts := by
    rw [ha, hb]
    exact fun _ => ⟨rfl, rfl⟩
  obtain ⟨hshown, hphase, -, -, -, -, -, -, hlog, hpending⟩ :=
    agree_but_for_pace hinstant hend hcustom hbook hstart hrun hstart' hrun'
  exact ⟨a, b, script, signals, p₀, p, q₀, q, ha, hb, hscript, hsignals, hstart, hrun, hstart',
    hrun', hp, hq, hshown, hphase, hlog, hpending⟩

end Performance

end Typewriter

import Mathlib.Logic.ExistsUnique
import Typewriter.Proofs.Performance.Course

/-!
# The stages of a run

The stages of a run are the performances that it passes through.  They tell what the present
performance does not: which line was shown last, after the end has taken its place on stage.

The main statement is `existsUnique_mode`: whatever is done to a performance, it is in exactly one
of its four modes, and all that can be seen of it is coupled in the way that the mode says.
-/

namespace Typewriter

namespace Performance

/-- The performances on the way, from the present one to the last. -/
def stages (p : Performance) : List Operation → List Performance
  | [] => [p]
  | operation :: rest =>
      match p.apply operation with
      | .error _ => [p]
      | .ok next => p :: next.stages rest

/-- The last line of an edition that some stages show in full; the empty text if there is none. -/
def lastLine (edition : Nat) (stages : List Performance) : String :=
  ((stages.filter fun p => p.edition = edition ∧ p.phase = .shown).getLast?.map shown).getD ""

variable {p q r : Performance} {line : String} {alarm : Alarm} {position : Nat}

theorem stages_concat {operations : List Operation} {operation : Operation}
    (hrun : p.run operations = .ok r) (happly : r.apply operation = .ok q) :
    p.stages (operations ++ [operation]) = p.stages operations ++ [q] := by
  induction operations generalizing p with
  | nil =>
      rw [run, Except.ok.injEq] at hrun
      subst hrun
      simp [stages, happly]
  | cons first rest ih =>
      simp only [List.cons_append, stages, run] at hrun ⊢
      cases hfirst : p.apply first with
      | error fault => simp [hfirst] at hrun
      | ok next =>
          simp only [hfirst] at hrun ⊢
          rw [ih hrun, List.cons_append]

theorem lastLine_concat_of_shown (stages : List Performance) (hphase : q.phase = .shown) :
    lastLine q.edition (stages ++ [q]) = q.shown := by
  simp [lastLine, List.filter_append, hphase]

theorem lastLine_concat_of_ne (stages : List Performance) (hphase : q.phase ≠ .shown)
    (edition : Nat) : lastLine edition (stages ++ [q]) = lastLine edition stages := by
  simp [lastLine, List.filter_append, hphase]

/-- An edition that is still to come has shown no line. -/
theorem lastLine_of_lt {edition : Nat} {stages : List Performance}
    (hlt : ∀ stage ∈ stages, stage.edition < edition) : lastLine edition stages = "" := by
  have hnone : stages.filter (fun p => p.edition = edition ∧ p.phase = .shown) = [] := by
    rw [List.filter_eq_nil_iff]
    intro stage hstage
    simp [Nat.ne_of_lt (hlt stage hstage)]
  rw [lastLine, hnone]
  rfl

/-! ## The line that was shown last -/

/-- Except while a line is being typed, and behind an end that is not announced, the visible text
is the line that was shown last. -/
def Remembers (p : Performance) (stages : List Performance) : Prop :=
  p.live = false ∨ p.phase = .shown ∨ (p.phase = .ended ∧ p.setup.announcesEnd = true) →
    p.shown = lastLine p.edition stages

theorem remembers_of_shown (stages : List Performance) (hphase : q.phase = .shown) :
    q.Remembers (stages ++ [q]) :=
  fun _ => (lastLine_concat_of_shown stages hphase).symm

theorem Remembers.concat {stages : List Performance} (hremembers : p.Remembers stages) :
    p.Remembers (stages ++ [p]) := by
  by_cases hphase : p.phase = .shown
  · exact remembers_of_shown stages hphase
  · intro hsettled
    rw [lastLine_concat_of_ne stages hphase]
    exact hremembers hsettled

theorem OnStage.remembers (stages : List Performance) (hstage : q.OnStage line) :
    q.Remembers (stages ++ [q]) := by
  cases hstage with
  | typing alarm htyping =>
      rintro (hlive | hphase | ⟨hphase, -⟩)
      · rw [htyping.live_eq] at hlive
        contradiction
      · rw [htyping.phase_eq] at hphase
        contradiction
      · rw [htyping.phase_eq] at hphase
        contradiction
  | shown hshown => exact remembers_of_shown stages hshown.phase_eq

/-- Walking on leaves the last line visible until another one is begun. -/
theorem Arrival.remembers {stages : List Performance} (hbetween : p.Between position)
    (hlast : p.shown = lastLine p.edition stages) (harrival : Arrival p position q) :
    q.Remembers (stages ++ [q]) := by
  cases harrival with
  | line at_ line _ _ hline hbegun => exact (hbegun.onStage rfl hline).remembers stages
  | pause at_ length _ _ _ heq =>
      subst heq
      -- Behind a shown line, the pause is one more stage that shows it.
      by_cases hphase : p.phase = .shown
      · exact remembers_of_shown stages hphase
      · intro _
        refine hlast.trans (lastLine_concat_of_ne stages ?_ p.edition).symm
        exact hphase
  | ending _ heq =>
      subst heq
      have hphase : (p.record (p.walkFrom position) true).phase ≠ .ended := hbetween.phase_ne_ended
      cases hend : p.setup.announcesEnd with
      | true =>
          rw [finish_of_announcesEnd hphase hend]
          intro _
          refine hlast.trans (lastLine_concat_of_ne stages ?_ p.edition).symm
          show Phase.ended ≠ Phase.shown
          decide
      | false =>
          rw [finish_of_not_announcesEnd hphase hend]
          rintro (hlive | hphase | ⟨-, htrue⟩)
          · contradiction
          · contradiction
          · exact absurd (hend.symm.trans htrue) (by decide)

theorem Course.remembers {stages : List Performance} {operation : Operation}
    (hedition : ∀ stage ∈ stages, stage.edition ≤ p.edition) (hremembers : p.Remembers stages)
    (hcourse : Course p operation q) : q.Remembers (stages ++ [q]) := by
  cases hcourse with
  | unheard => exact hremembers.concat
  | stale => exact hremembers.concat
  | wholeLine line alarm htyping => exact remembers_of_shown stages rfl
  | nextChar line alarm _ htyping htyped =>
      exact (htyping.onStage_of_typed htyped).remembers stages
  | wentOn line _ hshown harrival =>
      exact harrival.remembers hshown.between (hremembers (.inr (.inl hshown.phase_eq)))
  | resumed position alarm _ hpaused harrival =>
      exact harrival.remembers hpaused.between_resumed (hremembers (.inl hpaused.live_eq))
  | loaded script _ harrival =>
      -- The new edition has no stage yet, and its visible text is empty.
      refine harrival.remembers (p.between_reload script) (lastLine_of_lt ?_).symm
      intro stage hstage
      exact Nat.lt_succ_of_le (hedition stage hstage)

theorem stages_edition_le {p₀ : Performance} {operations : List Operation}
    (hcoherent : p₀.Coherent) (hrun : p₀.run operations = .ok p) :
    ∀ stage ∈ p₀.stages operations, stage.edition ≤ p.edition := by
  refine run_induction
    (motive := fun operations p => ∀ stage ∈ p₀.stages operations, stage.edition ≤ p.edition)
    hcoherent ?nil ?concat hrun
  case nil => simp [stages]
  case concat =>
    intro operations operation r q hrest happly _ hcourse ih stage hstage
    obtain ⟨-, -, hedition⟩ := hcourse.setup_script_edition
    rw [stages_concat hrest happly, List.mem_append, List.mem_singleton] at hstage
    rcases hstage with hstage | rfl
    · have := ih stage hstage
      omega
    · exact Nat.le_refl _

/-- Along every run, the line that was shown last is remembered. -/
theorem remembers_of_run {setup : Setup} {script : Script} {p₀ : Performance}
    {operations : List Operation} (hstart : start setup script = .ok p₀)
    (hrun : p₀.run operations = .ok p) : p.Remembers (p₀.stages operations) := by
  have hcoherent : p₀.Coherent := coherent_of_start hstart
  refine run_induction (motive := fun operations p => p.Remembers (p₀.stages operations))
    hcoherent ?nil ?concat hrun
  case nil =>
    have hremembers : p₀.Remembers ([] ++ [p₀]) :=
      (arrival_of_start hstart).remembers (between_initial setup script) rfl
    exact hremembers
  case concat =>
    intro operations operation r q hrest happly _ hcourse ih
    rw [stages_concat hrest happly]
    exact hcourse.remembers (stages_edition_le hcoherent hrest) ih

/-! ## Exactly one mode -/

/-- The names of the modes. -/
inductive Mode where
  | typing
  | shown
  | paused
  | ended
deriving DecidableEq, Repr

/-- A performance is in a mode; `last` is the line that was shown last. -/
def InMode (p : Performance) (last : String) : Mode → Prop
  | .typing =>
      ∃ line alarm c, p.Typing line alarm ∧ p.shown.toList.getLast? = some c ∧
        alarm.delay.nanos = p.setup.tempo.interval.nanos + (p.setup.tempo.rests.after c).nanos
  | .shown => ∃ line, p.Shown line
  | .paused => ∃ position alarm, p.Paused position alarm
  | .ended => p.Ended ∧ (p.setup.announcesEnd = true → p.shown = last)

/-- The only mode that a performance can be in. -/
def mode (p : Performance) : Mode :=
  match p.live, p.phase with
  | false, _ => .paused
  | true, .shown => .shown
  | true, .ended => .ended
  | true, .typing => .typing
  | true, .waiting => .typing

theorem InMode.eq_mode {last : String} {m : Mode} (hmode : p.InMode last m) : m = p.mode := by
  unfold mode
  cases m with
  | typing =>
      obtain ⟨line, alarm, c, htyping, -⟩ := hmode
      rw [htyping.live_eq, htyping.phase_eq]
  | shown =>
      obtain ⟨line, hshown⟩ := hmode
      rw [hshown.live_eq, hshown.phase_eq]
  | paused =>
      obtain ⟨position, alarm, hpaused⟩ := hmode
      rw [hpaused.live_eq]
  | ended =>
      obtain ⟨hended, -⟩ := hmode
      rw [hended.live_eq, hended.phase_eq]

theorem Coherent.inMode {stages : List Performance} (hcoherent : p.Coherent)
    (hjitter : p.setup.tempo.jitter.nanos < nanosPerMilli) (hremembers : p.Remembers stages) :
    p.InMode (lastLine p.edition stages) p.mode := by
  cases hcoherent with
  | typing line alarm htyping =>
      obtain ⟨c, hlast, hallows⟩ := htyping.allows
      have hmode : p.InMode (lastLine p.edition stages) .typing :=
        ⟨line, alarm, c, htyping, hlast, hallows.nanos_eq hjitter⟩
      exact hmode.eq_mode ▸ hmode
  | shown line hshown =>
      have hmode : p.InMode (lastLine p.edition stages) .shown := ⟨line, hshown⟩
      exact hmode.eq_mode ▸ hmode
  | paused position alarm hpaused =>
      have hmode : p.InMode (lastLine p.edition stages) .paused := ⟨position, alarm, hpaused⟩
      exact hmode.eq_mode ▸ hmode
  | ended hended =>
      have hmode : p.InMode (lastLine p.edition stages) .ended :=
        ⟨hended, fun hend => hremembers (.inr (.inr ⟨hended.phase_eq, hend⟩))⟩
      exact hmode.eq_mode ▸ hmode

/-! ## What holds in all modes -/

theorem Typable.length_shown (htypable : p.Typable line) (hle : p.revealed ≤ line.length) :
    p.shown.length = p.revealed := by
  rw [← String.length_toList, htypable.toList_shown, List.length_take, String.length_toList]
  omega

theorem Coherent.revealed_eq (hcoherent : p.Coherent) : p.revealed = p.shown.length := by
  cases hcoherent with
  | typing line alarm htyping =>
      exact (htyping.length_shown (Nat.le_of_lt htyping.revealed_lt)).symm
  | shown line hshown => rw [hshown.revealed_eq, hshown.shown_eq]
  | paused position alarm hpaused => exact hpaused.between.revealed_eq_length
  | ended hended => exact hended.revealed_eq

theorem lt_length_of_lineAt?_eq_some {script : Script}
    (hline : script.lineAt? position = some line) : position < script.length :=
  (List.getElem?_eq_some_iff.mp (Script.lineAt?_eq_some_iff.mp hline)).1

theorem Paused.cursor_lt (hpaused : p.Paused position alarm) : p.cursor < p.script.length := by
  have hposition : position < p.script.length := (List.getElem?_eq_some_iff.mp hpaused.pause_eq).1
  cases hpaused.between with
  | fresh _ hcursor => omega
  | behind _ hcursor => omega

/-- The cursor is a position of the script, or behind it exactly at the end. -/
theorem Coherent.cursor_le (hcoherent : p.Coherent) :
    p.cursor ≤ p.script.length ∧ (p.cursor = p.script.length ↔ p.phase = .ended) := by
  -- In three of the modes the cursor is at a cue of the script.
  have hinside (hlt : p.cursor < p.script.length) (hphase : p.phase ≠ .ended) :
      p.cursor ≤ p.script.length ∧ (p.cursor = p.script.length ↔ p.phase = .ended) :=
    ⟨Nat.le_of_lt hlt, fun heq => absurd heq (Nat.ne_of_lt hlt), fun heq => absurd heq hphase⟩
  cases hcoherent with
  | typing line alarm htyping =>
      refine hinside (lt_length_of_lineAt?_eq_some htyping.lineAt?_eq) ?_
      rw [htyping.phase_eq]
      decide
  | shown line hshown =>
      refine hinside (lt_length_of_lineAt?_eq_some hshown.lineAt?_eq) ?_
      rw [hshown.phase_eq]
      decide
  | paused position alarm hpaused =>
      exact hinside hpaused.cursor_lt hpaused.between.phase_ne_ended
  | ended hended =>
      exact ⟨Nat.le_of_eq hended.cursor_eq, fun _ => hended.phase_eq, fun _ => hended.cursor_eq⟩

theorem Between.phase_ne_waiting (hbetween : p.Between position) : p.phase ≠ .waiting := by
  cases hbetween with
  | fresh hphase => rw [hphase]; decide
  | behind hphase => rw [hphase]; decide

theorem Coherent.phase_ne_waiting (hcoherent : p.Coherent) : p.phase ≠ .waiting := by
  cases hcoherent with
  | typing line alarm htyping => rw [htyping.phase_eq]; decide
  | shown line hshown => rw [hshown.phase_eq]; decide
  | paused position alarm hpaused => exact hpaused.between.phase_ne_waiting
  | ended hended => rw [hended.phase_eq]; decide

/-- Whatever is done to a performance, as long as it does not break off it is in exactly one of its
modes.  In all of them the count is that of the visible characters, and the cursor is a position of
the script or, exactly at the end, behind it. -/
theorem existsUnique_mode {setup : Setup} {script : Script} {p₀ p : Performance}
    {operations : List Operation} (hjitter : setup.tempo.jitter.nanos < nanosPerMilli)
    (hstart : start setup script = .ok p₀) (hrun : p₀.run operations = .ok p) :
    (∃! m, p.InMode (lastLine p.edition (p₀.stages operations)) m) ∧
      p.setup = setup ∧ p.script = operations.foldl Operation.scriptAfter script ∧
      p.edition = operations.countP Operation.isLoad ∧
      p.revealed = p.shown.length ∧ p.phase ≠ .waiting ∧ p.cursor ≤ p.script.length ∧
      (p.cursor = p.script.length ↔ p.phase = .ended) := by
  have hcoherent : p.Coherent := coherent_of_run (coherent_of_start hstart) hrun
  obtain ⟨hsetup, hscript, hedition⟩ := setup_script_edition_of_run hstart hrun
  have hjitter' : p.setup.tempo.jitter.nanos < nanosPerMilli := by rw [hsetup]; exact hjitter
  refine ⟨⟨p.mode, hcoherent.inMode hjitter' (remembers_of_run hstart hrun), ?_⟩, hsetup, hscript,
    hedition, hcoherent.revealed_eq, hcoherent.phase_ne_waiting, hcoherent.cursor_le⟩
  intro m hmode
  exact hmode.eq_mode

/-- A script is replaced during its leading pause, the alarm of that pause rings too late, and the
new script is taken from its first line into its pause. -/
theorem existsUnique_mode_of_load_during_pause :
    ∃ setup script operations p₀ p, setup.tempo.jitter.nanos < nanosPerMilli ∧
      start setup script = .ok p₀ ∧ p₀.run operations = .ok p ∧
      operations = [.advance, .load [.line "Hi", .pause (.ofMillis 7)],
        .ring ⟨0, 0, .ofMillis 5, .walkOn 1⟩, .ring ⟨1, 0, .ofMillis 50, .typeNext 0⟩, .advance] ∧
      p.mode = .paused ∧ p.shown = "Hi" ∧
      (∃! m, p.InMode (lastLine p.edition (p₀.stages operations)) m) := by
  have hjitter : ({ announcesEnd := true } : Setup).tempo.jitter.nanos < nanosPerMilli := by decide
  have hruns : ∃ p₀ p, start { announcesEnd := true } [.pause (.ofMillis 5), .line "a"] = .ok p₀ ∧
      p₀.run [.advance, .load [.line "Hi", .pause (.ofMillis 7)],
        .ring ⟨0, 0, .ofMillis 5, .walkOn 1⟩, .ring ⟨1, 0, .ofMillis 50, .typeNext 0⟩, .advance] =
        .ok p ∧ p.mode = .paused ∧ p.shown = "Hi" :=
    ⟨_, _, rfl, rfl, rfl, by decide⟩
  obtain ⟨p₀, p, hstart, hrun, hmode, hshown⟩ := hruns
  exact ⟨_, _, _, p₀, p, hjitter, hstart, hrun, rfl, hmode, hshown,
    (existsUnique_mode hjitter hstart hrun).1⟩

end Performance

end Typewriter

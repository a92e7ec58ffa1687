import Mathlib.Data.List.Induction
import Typewriter.Proofs.Performance.Modes

/-!
# The course of a performance

`Arrival` lists where walking on can lead: to a line, into a pause, or to the end.  `Course` lists
all that an operation can do to a coherent performance, and `Coherent.course` is its inversion
lemma.  What later modules say about operations is derived from it, so that none of them looks into
`advance`, `load` or `ring` again.

The main statement is `coherent_of_run`: no operation, and no alarm that was made up, leads out of
the four modes.  `run_induction` packages the induction over a run with the inversion lemma.
-/

namespace Typewriter

namespace Performance

variable {p q : Performance} {line : String} {alarm : Alarm} {position : Nat}

/-! ## Walking on -/

/-- Where walking on from a position can lead. -/
inductive Arrival (p : Performance) (position : Nat) (q : Performance) : Prop where
  | line (at_ : Nat) (line : String) (stop_eq : (p.walkFrom position).stop = .line at_)
      (le : position ≤ at_) (lineAt?_eq : p.script.lineAt? at_ = some line)
      (begun : Begun (p.record (p.walkFrom position) true) line at_ q)
  | pause (at_ : Nat) (length : Duration)
      (stop_eq : (p.walkFrom position).stop = .pause length (at_ + 1))
      (le : position ≤ at_) (pause_eq : p.script[at_]? = some (.pause length))
      (eq : q = (p.record (p.walkFrom position) false).schedule length
        (.walkOn (at_ + 1)))
  | ending (stop_eq : (p.walkFrom position).stop = .ending)
      (eq : q = (p.record (p.walkFrom position) true).finish)

theorem walkOn_of_stop_line {at_ : Nat} (hstop : (p.walkFrom position).stop = .line at_) :
    p.walkOn position = (p.record (p.walkFrom position) true).beginLine at_ := by
  unfold walkOn
  simp only [hstop]

theorem walkOn_of_stop_pause {length : Duration} {next : Nat}
    (hstop : (p.walkFrom position).stop = .pause length next) :
    p.walkOn position =
      .ok ((p.record (p.walkFrom position) false).schedule length (.walkOn next)) := by
  unfold walkOn
  simp only [hstop]

theorem walkOn_of_stop_ending (hstop : (p.walkFrom position).stop = .ending) :
    p.walkOn position = .ok (p.record (p.walkFrom position) true).finish := by
  unfold walkOn
  simp only [hstop]

theorem arrival_of_walkOn (hwalk : p.walkOn position = .ok q) : Arrival p position q := by
  have hwithin := p.script.walkFrom_stop_within p.setup.handler p.asked position
  cases hstop : (p.walkFrom position).stop with
  | line at_ =>
      rw [walkOn_of_stop_line hstop] at hwalk
      rw [← walkFrom, hstop] at hwithin
      obtain ⟨hle, line, hline⟩ := hwithin
      exact .line at_ line hstop hle hline (begun_of_beginLine hline hwalk)
  | pause length next =>
      rw [walkOn_of_stop_pause hstop] at hwalk
      rw [← walkFrom, hstop] at hwithin
      obtain ⟨at_, hle, rfl, hpause⟩ := hwithin
      exact .pause at_ length hstop hle hpause (Except.ok.inj hwalk).symm
  | ending =>
      rw [walkOn_of_stop_ending hstop] at hwalk
      exact .ending hstop (Except.ok.inj hwalk).symm

theorem Between.of_record (hbetween : p.Between position) (walk : Walk) (live : Bool) :
    (p.record walk live).Between position := by
  cases hbetween with
  | fresh hphase hcursor hshown hrevealed => exact .fresh hphase hcursor hshown hrevealed
  | behind hphase hcursor hline hrevealed => exact .behind hphase hcursor hline hrevealed

/-- Where a performance stands after a walk that made some stop. -/
inductive Place (p : Performance) : Stop → Prop where
  | line (line : String) (stage : p.OnStage line) : Place p (.line p.cursor)
  | pause (position : Nat) (alarm : Alarm) (mode : p.Paused position alarm) :
      Place p (.pause alarm.delay (position + 1))
  | ending (mode : p.Ended) : Place p .ending

theorem Place.coherent {stop : Stop} (hplace : p.Place stop) : p.Coherent := by
  cases hplace with
  | line line hstage => exact hstage.coherent
  | pause position alarm hpaused => exact .paused position alarm hpaused
  | ending hended => exact .ended hended

theorem Arrival.place (hbetween : p.Between position) (harrival : Arrival p position q) :
    q.Place (p.walkFrom position).stop := by
  have hrecord := hbetween.of_record (p.walkFrom position)
  cases harrival with
  | line at_ line hstop _ hline hbegun =>
      rw [hstop, ← hbegun.cursor_eq]
      exact .line line (hbegun.onStage rfl hline)
  | pause at_ length hstop hle hpause heq =>
      subst heq
      rw [hstop]
      have hbefore : (p.record (p.walkFrom position) false).Between at_ :=
        (hrecord false).mono hle
      refine .pause at_ ⟨p.edition, p.nextSerial, length, .walkOn (at_ + 1)⟩
        ⟨rfl, hpause, rfl, rfl, rfl, ?_⟩
      -- Scheduling the alarm leaves the stage alone.
      cases hbefore with
      | fresh hphase hcursor hshown hrevealed => exact .fresh hphase hcursor hshown hrevealed
      | behind hphase hcursor hline hrevealed => exact .behind hphase hcursor hline hrevealed
  | ending hstop heq =>
      subst heq
      rw [hstop]
      exact .ending
        (ended_finish (hrecord true).phase_ne_ended rfl (hrecord true).revealed_eq_length)

theorem Arrival.coherent (hbetween : p.Between position) (harrival : Arrival p position q) :
    q.Coherent :=
  (harrival.place hbetween).coherent

theorem finish_eq_or (p : Performance) :
    p.finish = p ∨
      p.finish = { p with
        phase := .ended, cursor := p.script.length, pending := none, log := p.log ++ [.complete] } ∨
      p.finish = { p with
        phase := .ended, cursor := p.script.length, pending := none
        shown := closingText, revealed := closingText.length } := by
  by_cases hphase : p.phase = .ended
  · exact .inl (if_pos hphase)
  · cases hend : p.setup.announcesEnd with
    | true => exact .inr (.inl (finish_of_announcesEnd hphase hend))
    | false => exact .inr (.inr (finish_of_not_announcesEnd hphase hend))

/-- Walking on changes neither the setup nor the script, and puts down the visits of the walk. -/
theorem Arrival.record_eq (harrival : Arrival p position q) :
    q.setup = p.setup ∧ q.script = p.script ∧ q.edition = p.edition ∧
      q.trail = p.trail ++ (p.walkFrom position).visits := by
  cases harrival with
  | line _ _ _ _ _ hbegun =>
      obtain ⟨hsetup, hscript, hedition, htrail, -⟩ := hbegun.sameRecord
      exact ⟨hsetup, hscript, hedition, htrail⟩
  | pause _ _ _ _ _ heq =>
      subst heq
      exact ⟨rfl, rfl, rfl, rfl⟩
  | ending _ heq =>
      subst heq
      rcases finish_eq_or (p.record (p.walkFrom position) true) with heq | heq | heq
      all_goals
        rw [heq]
        exact ⟨rfl, rfl, rfl, rfl⟩

/-! ## Operations -/

theorem between_reload (p : Performance) (script : Script) : (p.reload script).Between 0 :=
  .fresh rfl rfl rfl rfl

theorem Paused.between_resumed (hpaused : p.Paused position alarm) :
    p.cancel.Between (position + 1) := by
  cases hpaused.between.mono (Nat.le_succ position) with
  | fresh hphase hcursor hshown hrevealed => exact .fresh hphase hcursor hshown hrevealed
  | behind hphase hcursor hline hrevealed => exact .behind hphase hcursor hline hrevealed

/-- Another alarm than the pending one has no effect. -/
theorem ring_of_ne (hne : p.pending ≠ some alarm) : p.ring alarm = .ok p := by
  unfold ring
  rw [if_neg fun hpending => hne hpending.2]

theorem Typing.advance_eq (htyping : p.Typing line alarm) : p.advance = .ok (p.showWhole line) := by
  unfold advance
  simp only [htyping.live_eq, htyping.phase_eq, htyping.lineAt?_eq, if_true]

theorem Typing.ring_eq (htyping : p.Typing line alarm) :
    p.ring alarm = p.cancel.typeNext line p.cursor := by
  unfold ring
  rw [if_pos ⟨htyping.edition_eq, htyping.pending_eq⟩]
  simp only [htyping.purpose_eq, htyping.lineAt?_eq]

theorem Shown.advance_eq (hshown : p.Shown line) : p.advance = p.walkOn (p.cursor + 1) := by
  unfold advance
  simp only [hshown.live_eq, hshown.phase_eq, if_true]

theorem Paused.advance_eq (hpaused : p.Paused position alarm) : p.advance = .ok p := by
  unfold advance
  simp only [hpaused.live_eq, Bool.false_eq_true, if_false]

theorem Paused.ring_eq (hpaused : p.Paused position alarm) :
    p.ring alarm = p.cancel.walkOn (position + 1) := by
  unfold ring
  rw [if_pos ⟨hpaused.edition_eq, hpaused.pending_eq⟩]
  simp only [hpaused.purpose_eq]

theorem Ended.advance_eq (hended : p.Ended) : p.advance = .ok p := by
  unfold advance
  simp only [hended.live_eq, hended.phase_eq, if_true]

/-- Without its alarm, a line that is being typed may be typed on. -/
theorem Typing.typable_cancel (htyping : p.Typing line alarm) : p.cancel.Typable line :=
  ⟨htyping.phase_eq, htyping.live_eq, htyping.lineAt?_eq, htyping.toList_shown, htyping.animated⟩

theorem Typing.onStage_of_typed (htyping : p.Typing line alarm)
    (htyped : Typed p.cancel line p.cursor q) : q.OnStage line :=
  htyping.typable_cancel.onStage htyped

/-- What an operation can do to a coherent performance. -/
inductive Course (p : Performance) : Operation → Performance → Prop where
  /-- The reader is not heard during a pause, nor behind the end. -/
  | unheard (still : (∃ position alarm, p.Paused position alarm) ∨ p.Ended) : Course p .advance p
  /-- The alarm is not the pending one. -/
  | stale (alarm : Alarm) (ne : p.pending ≠ some alarm) : Course p (.ring alarm) p
  | wholeLine (line : String) (alarm : Alarm) (mode : p.Typing line alarm) :
      Course p .advance (p.showWhole line)
  | nextChar (line : String) (alarm : Alarm) (q : Performance) (mode : p.Typing line alarm)
      (typed : Typed p.cancel line p.cursor q) : Course p (.ring alarm) q
  | wentOn (line : String) (q : Performance) (mode : p.Shown line)
      (arrival : Arrival p (p.cursor + 1) q) : Course p .advance q
  | resumed (position : Nat) (alarm : Alarm) (q : Performance) (mode : p.Paused position alarm)
      (arrival : Arrival p.cancel (position + 1) q) : Course p (.ring alarm) q
  | loaded (script : Script) (q : Performance) (arrival : Arrival (p.reload script) 0 q) :
      Course p (.load script) q

theorem Coherent.course_advance (hcoherent : p.Coherent) (hadvance : p.advance = .ok q) :
    Course p .advance q := by
  cases hcoherent with
  | typing line alarm htyping =>
      rw [htyping.advance_eq] at hadvance
      rw [← Except.ok.inj hadvance]
      exact .wholeLine line alarm htyping
  | shown line hshown =>
      rw [hshown.advance_eq] at hadvance
      exact .wentOn line q hshown (arrival_of_walkOn hadvance)
  | paused position alarm hpaused =>
      rw [hpaused.advance_eq] at hadvance
      rw [← Except.ok.inj hadvance]
      exact .unheard (.inl ⟨position, alarm, hpaused⟩)
  | ended hended =>
      rw [hended.advance_eq] at hadvance
      rw [← Except.ok.inj hadvance]
      exact .unheard (.inr hended)

theorem Coherent.course_ring (hcoherent : p.Coherent) (hring : p.ring alarm = .ok q) :
    Course p (.ring alarm) q := by
  by_cases hpending : p.pending = some alarm
  · rcases hcoherent.typing_or_paused hpending with ⟨line, htyping⟩ | ⟨position, hpaused⟩
    · rw [htyping.ring_eq] at hring
      exact .nextChar line alarm q htyping (typed_of_typeNext htyping.toList_shown hring)
    · rw [hpaused.ring_eq] at hring
      exact .resumed position alarm q hpaused (arrival_of_walkOn hring)
  · rw [ring_of_ne hpending] at hring
    rw [← Except.ok.inj hring]
    exact .stale alarm hpending

/-- Everything that an operation can do to a coherent performance is listed in `Course`. -/
theorem Coherent.course {operation : Operation} (hcoherent : p.Coherent)
    (happly : p.apply operation = .ok q) : Course p operation q := by
  cases operation with
  | advance => exact hcoherent.course_advance happly
  | load script => exact .loaded script q (arrival_of_walkOn happly)
  | ring alarm => exact hcoherent.course_ring happly

theorem Course.coherent {operation : Operation} (hcoherent : p.Coherent)
    (hcourse : Course p operation q) : q.Coherent := by
  cases hcourse with
  | unheard => exact hcoherent
  | stale => exact hcoherent
  | wholeLine line alarm htyping =>
      exact .shown line (shown_showWhole htyping.live_eq htyping.lineAt?_eq)
  | nextChar line alarm _ htyping htyped =>
      exact (htyping.onStage_of_typed htyped).coherent
  | wentOn line _ hshown harrival => exact harrival.coherent hshown.between
  | resumed position alarm _ hpaused harrival => exact harrival.coherent hpaused.between_resumed
  | loaded script _ harrival => exact harrival.coherent (p.between_reload script)

/-- The script after an operation. -/
def Operation.scriptAfter (present : Script) : Operation → Script
  | .load script => script
  | .advance => present
  | .ring _ => present

/-- Whether an operation starts a script. -/
def Operation.isLoad : Operation → Bool
  | .load _ => true
  | .advance => false
  | .ring _ => false

/-- Only loading changes the script and the edition, and nothing changes the setup. -/
theorem Course.setup_script_edition {operation : Operation} (hcourse : Course p operation q) :
    q.setup = p.setup ∧ q.script = operation.scriptAfter p.script ∧
      q.edition = p.edition + if operation.isLoad then 1 else 0 := by
  cases hcourse with
  | unheard => exact ⟨rfl, rfl, rfl⟩
  | stale => exact ⟨rfl, rfl, rfl⟩
  | wholeLine => exact ⟨rfl, rfl, rfl⟩
  | nextChar _ _ _ _ htyped =>
      obtain ⟨hsetup, hscript, hedition, -, -⟩ := htyped.sameRecord
      exact ⟨hsetup, hscript, hedition⟩
  | wentOn _ _ _ harrival =>
      obtain ⟨hsetup, hscript, hedition, -⟩ := harrival.record_eq
      exact ⟨hsetup, hscript, hedition⟩
  | resumed _ _ _ _ harrival =>
      obtain ⟨hsetup, hscript, hedition, -⟩ := harrival.record_eq
      exact ⟨hsetup, hscript, hedition⟩
  | loaded _ _ harrival =>
      obtain ⟨hsetup, hscript, hedition, -⟩ := harrival.record_eq
      exact ⟨hsetup, hscript, hedition⟩

/-! ## Runs -/

theorem run_concat_eq_ok_iff {operations : List Operation} {operation : Operation} :
    p.run (operations ++ [operation]) = .ok q ↔
      ∃ r, p.run operations = .ok r ∧ r.apply operation = .ok q := by
  induction operations generalizing p with
  | nil =>
      simp only [List.nil_append, run, Except.ok.injEq, exists_eq_left']
      cases p.apply operation with
      | error fault => simp
      | ok next => simp
  | cons first rest ih =>
      simp only [List.cons_append, run]
      cases p.apply first with
      | error fault => simp
      | ok next => exact ih

theorem between_initial (setup : Setup) (script : Script) :
    ({ setup, script } : Performance).Between 0 :=
  .fresh rfl rfl rfl rfl

theorem arrival_of_start {setup : Setup} {script : Script} (hstart : start setup script = .ok p) :
    Arrival { setup, script } 0 p :=
  arrival_of_walkOn hstart

theorem coherent_of_start {setup : Setup} {script : Script} (hstart : start setup script = .ok p) :
    p.Coherent :=
  (arrival_of_start hstart).coherent (between_initial setup script)

theorem coherent_of_run {operations : List Operation} (hcoherent : p.Coherent)
    (hrun : p.run operations = .ok q) : q.Coherent := by
  -- A run is taken apart at its last operation, so the induction is from the end of the list.
  induction operations using List.reverseRecOn generalizing q with
  | nil =>
      rw [← Except.ok.inj hrun]
      exact hcoherent
  | append_singleton operations operation ih =>
      obtain ⟨r, hrest, happly⟩ := run_concat_eq_ok_iff.mp hrun
      exact ((ih hrest).course happly).coherent (ih hrest)

/-- To prove something of all that a coherent performance can become, prove it of the beginning and
carry it over each course of an operation. -/
theorem run_induction {motive : List Operation → Performance → Prop} (hcoherent : p.Coherent)
    (nil : motive [] p)
    (concat : ∀ operations operation r q, p.run operations = .ok r → r.apply operation = .ok q →
      r.Coherent → Course r operation q → motive operations r →
      motive (operations ++ [operation]) q)
    {operations : List Operation} (hrun : p.run operations = .ok q) : motive operations q := by
  induction operations using List.reverseRecOn generalizing q with
  | nil =>
      rw [← Except.ok.inj hrun]
      exact nil
  | append_singleton operations operation ih =>
      obtain ⟨r, hrest, happly⟩ := run_concat_eq_ok_iff.mp hrun
      have hr : r.Coherent := coherent_of_run hcoherent hrest
      exact concat operations operation r q hrest happly hr (hr.course happly) (ih hrest)

/-- The setup stays, the script is the one that was loaded last, and editions count the loads. -/
theorem setup_script_edition_of_run {setup : Setup} {script : Script} {p₀ : Performance}
    {operations : List Operation} (hstart : start setup script = .ok p₀)
    (hrun : p₀.run operations = .ok p) :
    p.setup = setup ∧ p.script = operations.foldl Operation.scriptAfter script ∧
      p.edition = operations.countP Operation.isLoad := by
  refine run_induction
    (motive := fun operations p => p.setup = setup ∧
      p.script = operations.foldl Operation.scriptAfter script ∧
      p.edition = operations.countP Operation.isLoad)
    (coherent_of_start hstart) ?nil ?concat hrun
  case nil =>
    obtain ⟨hsetup, hscript, hedition, -⟩ := (arrival_of_start hstart).record_eq
    exact ⟨hsetup, hscript, hedition⟩
  case concat =>
    intro operations operation r q _ _ _ hcourse ih
    obtain ⟨hsetup, hscript, hedition⟩ := hcourse.setup_script_edition
    obtain ⟨hsetup', hscript', hedition'⟩ := ih
    refine ⟨hsetup.trans hsetup', ?_, ?_⟩
    · rw [hscript, hscript', List.foldl_append]
      rfl
    · rw [hedition, hedition', List.countP_append, List.countP_singleton]

end Performance

end Typewriter

import Typewriter.Performance.Basic
import Typewriter.Proofs.Tempo
import Typewriter.Proofs.Walk

/-!
# The modes of a performance

A performance that was started and never broke off is in one of four modes: a line is being typed,
a line is shown in full, a pause is pending, or the script has come to its end.  Each mode is a
structure that couples the script, the cursor, the visible text and its count, the phase, and the
pending alarm; `Performance.Coherent` says that one of them holds.

Typing a character, beginning a line, and coming to the end each have one lemma here that says all
they can lead to (`typed_of_typeNext`, `begun_of_beginLine`, `ended_finish`); later modules use
these and not the definitions.
-/

namespace Typewriter

namespace Performance

/-! ## The modes -/

/-- The line at the cursor is on stage, and what is visible of it are its first characters. -/
structure Typable (p : Performance) (line : String) : Prop where
  phase_eq : p.phase = .typing
  live_eq : p.live = true
  lineAt?_eq : p.script.lineAt? p.cursor = some line
  toList_shown : p.shown.toList = line.toList.take p.revealed
  animated : p.setup.tempo.isInstant = false

/-- A line is being typed: some of its characters are visible, but not all, and an alarm for the
next one is pending. -/
structure Typing (p : Performance) (line : String) (alarm : Alarm) : Prop
    extends Typable p line where
  revealed_pos : 0 < p.revealed
  revealed_lt : p.revealed < line.length
  pending_eq : p.pending = some alarm
  edition_eq : alarm.edition = p.edition
  purpose_eq : alarm.purpose = .typeNext p.cursor
  allows : ∃ c, p.shown.toList.getLast? = some c ∧ p.setup.tempo.Allows c alarm.delay

/-- The line at the cursor is shown in full. -/
structure Shown (p : Performance) (line : String) : Prop where
  phase_eq : p.phase = .shown
  live_eq : p.live = true
  lineAt?_eq : p.script.lineAt? p.cursor = some line
  shown_eq : p.shown = line
  revealed_eq : p.revealed = line.length
  pending_eq : p.pending = none

/-- No line is on stage before a position: nothing was begun yet, or the line at the cursor was
shown in full and left behind. -/
inductive Between (p : Performance) (position : Nat) : Prop where
  | fresh (phase_eq : p.phase = .typing) (cursor_eq : p.cursor = 0) (shown_eq : p.shown = "")
      (revealed_eq : p.revealed = 0)
  | behind (phase_eq : p.phase = .shown) (cursor_lt : p.cursor < position)
      (lineAt?_eq : p.script.lineAt? p.cursor = some p.shown)
      (revealed_eq : p.revealed = p.shown.length)

/-- The pause at a position is pending. -/
structure Paused (p : Performance) (position : Nat) (alarm : Alarm) : Prop where
  live_eq : p.live = false
  pause_eq : p.script[position]? = some (.pause alarm.delay)
  pending_eq : p.pending = some alarm
  edition_eq : alarm.edition = p.edition
  purpose_eq : alarm.purpose = .walkOn (position + 1)
  between : p.Between position

/-- A line is typed or shown. -/
inductive OnStage (p : Performance) (line : String) : Prop where
  | typing (alarm : Alarm) (mode : p.Typing line alarm)
  | shown (mode : p.Shown line)

/-- The script has come to its end. -/
structure Ended (p : Performance) : Prop where
  phase_eq : p.phase = .ended
  live_eq : p.live = true
  cursor_eq : p.cursor = p.script.length
  pending_eq : p.pending = none
  revealed_eq : p.revealed = p.shown.length
  shown_eq : p.setup.announcesEnd = false → p.shown = closingText

/-- A performance is in one of its modes. -/
inductive Coherent (p : Performance) : Prop where
  | typing (line : String) (alarm : Alarm) (mode : p.Typing line alarm)
  | shown (line : String) (mode : p.Shown line)
  | paused (position : Nat) (alarm : Alarm) (mode : p.Paused position alarm)
  | ended (mode : p.Ended)

variable {p q : Performance} {line : String} {alarm : Alarm} {position : Nat}

theorem OnStage.coherent (hstage : p.OnStage line) : p.Coherent := by
  cases hstage with
  | typing alarm htyping => exact .typing line alarm htyping
  | shown hshown => exact .shown line hshown

/-- Only while a line is typed and during a pause is an alarm pending. -/
theorem Coherent.typing_or_paused (hcoherent : p.Coherent) (hpending : p.pending = some alarm) :
    (∃ line, p.Typing line alarm) ∨ ∃ position, p.Paused position alarm := by
  cases hcoherent with
  | typing line pending htyping =>
      obtain rfl : pending = alarm := Option.some.inj (htyping.pending_eq.symm.trans hpending)
      exact .inl ⟨line, htyping⟩
  | shown line hshown =>
      rw [hshown.pending_eq] at hpending
      contradiction
  | paused position pending hpaused =>
      obtain rfl : pending = alarm := Option.some.inj (hpaused.pending_eq.symm.trans hpending)
      exact .inr ⟨position, hpaused⟩
  | ended hended =>
      rw [hended.pending_eq] at hpending
      contradiction

theorem OnStage.live_eq (hstage : p.OnStage line) : p.live = true := by
  cases hstage with
  | typing alarm htyping => exact htyping.live_eq
  | shown hshown => exact hshown.live_eq

theorem OnStage.phase_eq_or (hstage : p.OnStage line) : p.phase = .typing ∨ p.phase = .shown := by
  cases hstage with
  | typing alarm htyping => exact .inl htyping.phase_eq
  | shown hshown => exact .inr hshown.phase_eq

theorem OnStage.phase_ne_ended (hstage : p.OnStage line) : p.phase ≠ .ended := by
  rcases hstage.phase_eq_or with hphase | hphase
  · rw [hphase]; decide
  · rw [hphase]; decide

theorem OnStage.lineAt?_eq (hstage : p.OnStage line) : p.script.lineAt? p.cursor = some line := by
  cases hstage with
  | typing alarm htyping => exact htyping.lineAt?_eq
  | shown hshown => exact hshown.lineAt?_eq

theorem Coherent.typing_of_phase_eq (hcoherent : p.Coherent) (hlive : p.live = true)
    (hphase : p.phase = .typing) : ∃ line alarm, p.Typing line alarm := by
  cases hcoherent with
  | typing line alarm htyping => exact ⟨line, alarm, htyping⟩
  | shown line hshown => exact absurd (hphase.symm.trans hshown.phase_eq) (by decide)
  | paused position alarm hpaused => exact absurd (hlive.symm.trans hpaused.live_eq) (by decide)
  | ended hended => exact absurd (hphase.symm.trans hended.phase_eq) (by decide)

theorem Coherent.paused_of_live_eq (hcoherent : p.Coherent) (hlive : p.live = false) :
    ∃ position alarm, p.Paused position alarm := by
  cases hcoherent with
  | typing line alarm htyping => exact absurd (hlive.symm.trans htyping.live_eq) (by decide)
  | shown line hshown => exact absurd (hlive.symm.trans hshown.live_eq) (by decide)
  | paused position alarm hpaused => exact ⟨position, alarm, hpaused⟩
  | ended hended => exact absurd (hlive.symm.trans hended.live_eq) (by decide)

theorem Between.phase_ne_ended (hbetween : p.Between position) : p.phase ≠ .ended := by
  cases hbetween with
  | fresh hphase => rw [hphase]; decide
  | behind hphase => rw [hphase]; decide

theorem Coherent.ended_of_phase_eq (hcoherent : p.Coherent) (hphase : p.phase = .ended) :
    p.Ended := by
  cases hcoherent with
  | typing line alarm htyping => exact absurd (hphase.symm.trans htyping.phase_eq) (by decide)
  | shown line hshown => exact absurd (hphase.symm.trans hshown.phase_eq) (by decide)
  | paused position alarm hpaused => exact absurd hphase hpaused.between.phase_ne_ended
  | ended hended => exact hended

theorem Between.mono {later : Nat} (hbetween : p.Between position) (hle : position ≤ later) :
    p.Between later := by
  cases hbetween with
  | fresh hphase hcursor hshown hrevealed => exact .fresh hphase hcursor hshown hrevealed
  | behind hphase hcursor hline hrevealed =>
      exact .behind hphase (Nat.lt_of_lt_of_le hcursor hle) hline hrevealed

theorem Between.revealed_eq_length (hbetween : p.Between position) :
    p.revealed = p.shown.length := by
  cases hbetween with
  | fresh _ _ hshown hrevealed => rw [hrevealed, hshown]; rfl
  | behind _ _ _ hrevealed => exact hrevealed

theorem Shown.between (hshown : p.Shown line) : p.Between (p.cursor + 1) := by
  refine .behind hshown.phase_eq (Nat.lt_succ_self _) ?_ ?_
  · rw [hshown.lineAt?_eq, hshown.shown_eq]
  · rw [hshown.revealed_eq, hshown.shown_eq]

/-- All but the stage is as before: nothing of the script was visited. -/
structure SameRecord (p q : Performance) : Prop where
  setup_eq : q.setup = p.setup
  script_eq : q.script = p.script
  edition_eq : q.edition = p.edition
  trail_eq : q.trail = p.trail
  log_eq : q.log = p.log

theorem SameRecord.refl (p : Performance) : SameRecord p p := ⟨rfl, rfl, rfl, rfl, rfl⟩

/-! ## Typing a line -/

/-- With no more than one character left, the line is shown in full. -/
theorem typeNext_of_le (hle : line.length ≤ p.revealed + 1) (position : Nat) :
    p.typeNext line position = .ok (p.showWhole line) := by
  unfold typeNext
  rw [if_pos hle]

/-- What is visible is a first piece of the line, so its byte count cuts the line right behind it. -/
theorem afterBytes?_of_take {c : Char} (htake : p.shown.toList = line.toList.take p.revealed)
    (hc : line.toList[p.revealed]? = some c) :
    Text.afterBytes? p.shown.utf8ByteSize line.toList =
      some (c :: line.toList.drop (p.revealed + 1)) := by
  obtain ⟨hindex, hget⟩ := List.getElem?_eq_some_iff.mp hc
  have hsplit : line.toList = p.shown.toList ++ c :: line.toList.drop (p.revealed + 1) := by
    rw [htake, ← hget, ← List.drop_eq_getElem_cons, List.take_append_drop]
  conv => lhs; rw [hsplit]
  exact Text.afterBytes?_utf8ByteSize p.shown _

/-- With more characters left, the next one is shown, unless the delay after it is too long. -/
theorem typeNext_of_lt {c : Char} (htake : p.shown.toList = line.toList.take p.revealed)
    (hlt : p.revealed + 1 < line.length) (hc : line.toList[p.revealed]? = some c)
    (position : Nat) :
    p.typeNext line position =
      match p.setup.tempo.delay? (p.setup.noise p.typed) c false with
      | none => .error .delayTooLong
      | some delay => .ok ((p.typeChar c).schedule delay (.typeNext position)) := by
  unfold typeNext
  rw [if_neg (Nat.not_le.mpr hlt), afterBytes?_of_take htake hc]
  cases hdelay : p.setup.tempo.delay? (p.setup.noise p.typed) c false with
  | none => simp only [Nat.ne_of_lt hlt, decide_false, hdelay]
  | some delay => simp only [Nat.ne_of_lt hlt, decide_false, hdelay]

/-- What typing on a line can lead to. -/
inductive Typed (p : Performance) (line : String) (position : Nat) (q : Performance) : Prop where
  | whole (le : line.length ≤ p.revealed + 1) (eq : q = p.showWhole line)
  | char (c : Char) (delay : Duration) (lt : p.revealed + 1 < line.length)
      (getElem?_eq : line.toList[p.revealed]? = some c)
      (delay?_eq : p.setup.tempo.delay? (p.setup.noise p.typed) c false = some delay)
      (eq : q = (p.typeChar c).schedule delay (.typeNext position))

theorem typed_of_typeNext (htake : p.shown.toList = line.toList.take p.revealed)
    (hnext : p.typeNext line position = .ok q) : Typed p line position q := by
  by_cases hle : line.length ≤ p.revealed + 1
  · rw [typeNext_of_le hle] at hnext
    exact .whole hle (Except.ok.inj hnext).symm
  · have hlt : p.revealed + 1 < line.length := Nat.not_le.mp hle
    have hindex : p.revealed < line.toList.length := by
      rw [String.length_toList]
      omega
    have hc := List.getElem?_eq_getElem hindex
    rw [typeNext_of_lt htake hlt hc] at hnext
    cases hdelay : p.setup.tempo.delay? (p.setup.noise p.typed) line.toList[p.revealed] false with
    | none => simp [hdelay] at hnext
    | some delay =>
        rw [hdelay] at hnext
        exact .char _ delay hlt hc hdelay (Except.ok.inj hnext).symm

theorem Typed.sameRecord (htyped : Typed p line position q) : SameRecord p q := by
  cases htyped with
  | whole _ heq => subst heq; exact ⟨rfl, rfl, rfl, rfl, rfl⟩
  | char _ _ _ _ _ heq => subst heq; exact ⟨rfl, rfl, rfl, rfl, rfl⟩

theorem shown_showWhole (hlive : p.live = true) (hline : p.script.lineAt? p.cursor = some line) :
    (p.showWhole line).Shown line :=
  ⟨rfl, hlive, hline, rfl, rfl, rfl⟩

theorem Typable.onStage (htypable : p.Typable line) (htyped : Typed p line p.cursor q) :
    q.OnStage line := by
  cases htyped with
  | whole _ heq =>
      subst heq
      exact .shown (shown_showWhole htypable.live_eq htypable.lineAt?_eq)
  | char c delay hlt hc hdelay heq =>
      subst heq
      -- One character more is visible, and it is the one that the delay goes by.
      refine .typing _ ⟨⟨htypable.phase_eq, htypable.live_eq, htypable.lineAt?_eq, ?_,
        htypable.animated⟩, Nat.succ_pos _, hlt, rfl, rfl, rfl, c, ?_, _, hdelay⟩
      · show (p.shown.push c).toList = line.toList.take (p.revealed + 1)
        rw [String.toList_push, htypable.toList_shown, List.take_add_one, hc]
        rfl
      · show (p.shown.push c).toList.getLast? = some c
        rw [String.toList_push, List.getLast?_concat]

theorem Typed.cursor_eq (htyped : Typed p line position q) : q.cursor = p.cursor := by
  cases htyped with
  | whole _ heq => rw [heq]; rfl
  | char _ _ _ _ _ heq => rw [heq]; rfl

/-- As long as the line is being typed, one more character is visible. -/
theorem Typed.revealed_eq (htyped : Typed p line position q) (hphase : q.phase = .typing) :
    q.revealed = p.revealed + 1 := by
  cases htyped with
  | whole _ heq =>
      rw [heq] at hphase
      contradiction
  | char _ _ _ _ _ heq => rw [heq]; rfl

/-! ## Beginning a line -/

/-- What beginning a line can lead to. -/
inductive Begun (p : Performance) (line : String) (position : Nat) (q : Performance) : Prop where
  | instant (isInstant_eq : p.setup.tempo.isInstant = true)
      (eq : q = { p with cursor := position }.showWhole line)
  | animated (isInstant_eq : p.setup.tempo.isInstant = false)
      (typed : Typed { p with cursor := position, shown := "", revealed := 0, phase := .typing }
        line position q)

theorem begun_of_beginLine (hline : p.script.lineAt? position = some line)
    (hbegin : p.beginLine position = .ok q) : Begun p line position q := by
  unfold beginLine at hbegin
  simp only [hline] at hbegin
  cases hinstant : p.setup.tempo.isInstant with
  | true =>
      simp only [hinstant, if_true] at hbegin
      exact .instant hinstant (Except.ok.inj hbegin).symm
  | false =>
      simp only [hinstant, Bool.false_eq_true, if_false] at hbegin
      exact .animated hinstant (typed_of_typeNext rfl hbegin)

theorem Begun.sameRecord (hbegun : Begun p line position q) : SameRecord p q := by
  cases hbegun with
  | instant _ heq => subst heq; exact ⟨rfl, rfl, rfl, rfl, rfl⟩
  | animated _ htyped =>
      obtain ⟨hsetup, hscript, hedition, htrail, hlog⟩ := htyped.sameRecord
      exact ⟨hsetup, hscript, hedition, htrail, hlog⟩

theorem Begun.cursor_eq (hbegun : Begun p line position q) : q.cursor = position := by
  cases hbegun with
  | instant _ heq => rw [heq]; rfl
  | animated _ htyped => exact htyped.cursor_eq

theorem Begun.onStage (hbegun : Begun p line position q) (hlive : p.live = true)
    (hline : p.script.lineAt? position = some line) : q.OnStage line := by
  cases hbegun with
  | instant _ heq =>
      subst heq
      exact .shown (shown_showWhole hlive hline)
  | animated hanimated htyped =>
      have htypable : Typable
          { p with cursor := position, shown := "", revealed := 0, phase := .typing } line :=
        ⟨rfl, hlive, hline, rfl, hanimated⟩
      exact htypable.onStage htyped

/-! ## Coming to the end -/

theorem phase_finish (p : Performance) : p.finish.phase = .ended := by
  by_cases hphase : p.phase = .ended
  · rw [finish, if_pos hphase]
    exact hphase
  · unfold finish
    rw [if_neg hphase]
    dsimp only
    split <;> rfl

theorem finish_of_announcesEnd (hphase : p.phase ≠ .ended) (hend : p.setup.announcesEnd = true) :
    p.finish = { p with
      phase := .ended, cursor := p.script.length, pending := none, log := p.log ++ [.complete] } := by
  unfold finish
  rw [if_neg hphase]
  simp only [hend, if_true]

theorem finish_of_not_announcesEnd (hphase : p.phase ≠ .ended)
    (hend : p.setup.announcesEnd = false) :
    p.finish = { p with
      phase := .ended, cursor := p.script.length, pending := none
      shown := closingText, revealed := closingText.length } := by
  unfold finish
  rw [if_neg hphase]
  simp only [hend, Bool.false_eq_true, if_false]

theorem ended_finish (hphase : p.phase ≠ .ended) (hlive : p.live = true)
    (hrevealed : p.revealed = p.shown.length) : p.finish.Ended := by
  cases hend : p.setup.announcesEnd with
  | true =>
      rw [finish_of_announcesEnd hphase hend]
      exact ⟨rfl, hlive, rfl, rfl, hrevealed, fun hfalse => by simp [hend] at hfalse⟩
  | false =>
      rw [finish_of_not_announcesEnd hphase hend]
      exact ⟨rfl, hlive, rfl, rfl, rfl, fun _ => rfl⟩

end Performance

end Typewriter

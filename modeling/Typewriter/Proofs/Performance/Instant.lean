import Typewriter.Proofs.Performance.Draining

/-!
# Typing and showing at once

A performance with an interval types its lines, one without shows them at once.  Here the two are
run side by side on the same script.  The second is given only those signals that do more to the
first than type on its present line (`Performance.thinned`), and the two stay in agreement:
`Agrees` says that they have come to the same place with the same trail and log, that they look the
same whenever the first is not typing, and that the second shows the line in full that the first is
typing.

The main statement is `instant_agrees`.
-/

namespace Typewriter

/-- How long an alarm is to wait, and for what. -/
def Alarm.wait (alarm : Alarm) : Duration × Purpose :=
  (alarm.delay, alarm.purpose)

namespace Performance

/-- What the owner of a performance does to it. -/
inductive Signal where
  | advance
  /-- The pending alarm rings, if there is one. -/
  | ringPending
  | load (script : Script)
deriving DecidableEq

/-- Carry out a signal. -/
def perform (p : Performance) : Signal → Except Fault Performance
  | .advance => p.advance
  | .ringPending => p.ringPending
  | .load script => p.load script

/-- Carry out signals one after the other. -/
def performAll (p : Performance) : List Signal → Except Fault Performance
  | [] => .ok p
  | signal :: rest =>
      match p.perform signal with
      | .error fault => .error fault
      | .ok next => next.performAll rest

/-- Whether an alarm for the next character is pending. -/
def typesNext (p : Performance) : Bool :=
  match p.pending.map Alarm.purpose with
  | some (.typeNext _) => true
  | _ => false

/-- Whether a signal only types on the present line: an alarm for its next character, or a reader
who cuts it short. -/
def typesOn (p : Performance) : Signal → Bool
  | .advance => p.live && p.phase = .typing
  | .ringPending => p.typesNext
  | .load _ => false

/-- The signals that do more than type on the present line. -/
def thinned (p : Performance) : List Signal → List Signal
  | [] => []
  | signal :: rest =>
      match p.perform signal with
      | .error _ => []
      | .ok next =>
          if p.typesOn signal then next.thinned rest else signal :: next.thinned rest

/-- Two performances with the same handler have come to the same place of the same script, and the
second one shows lines at once. -/
structure SamePlace (a b : Performance) : Prop where
  isInstant_eq : b.setup.tempo.isInstant = true
  handler_eq : b.setup.handler = a.setup.handler
  announcesEnd_eq : b.setup.announcesEnd = a.setup.announcesEnd
  script_eq : b.script = a.script
  edition_eq : b.edition = a.edition
  cursor_eq : b.cursor = a.cursor
  trail_eq : b.trail = a.trail
  log_eq : b.log = a.log

/-- Besides, they look the same. -/
structure SameStage (a b : Performance) : Prop extends SamePlace a b where
  shown_eq : b.shown = a.shown
  revealed_eq : b.revealed = a.revealed
  phase_eq : b.phase = a.phase

/-- The two performances agree as far as typing and showing at once can. -/
structure Agrees (a b : Performance) : Prop extends SamePlace a b where
  live_eq : b.live = a.live
  settled : a.typesNext = false →
    b.shown = a.shown ∧ b.revealed = a.revealed ∧ b.phase = a.phase ∧
      b.pending.map Alarm.wait = a.pending.map Alarm.wait
  whole : ∀ line alarm, a.Typing line alarm → b.Shown line

variable {a b p q : Performance} {line : String} {alarm : Alarm} {position : Nat}

/-! ## When the present line is typed on -/

theorem Typing.typesNext_eq (htyping : p.Typing line alarm) : p.typesNext = true := by
  unfold typesNext
  rw [htyping.pending_eq, Option.map_some, htyping.purpose_eq]

theorem Coherent.typing_of_typesNext (hcoherent : p.Coherent) (hnext : p.typesNext = true) :
    ∃ line alarm, p.Typing line alarm := by
  unfold typesNext at hnext
  cases hcoherent with
  | typing line alarm htyping => exact ⟨line, alarm, htyping⟩
  | shown line hshown => simp [hshown.pending_eq] at hnext
  | paused position alarm hpaused => simp [hpaused.pending_eq, hpaused.purpose_eq] at hnext
  | ended hended => simp [hended.pending_eq] at hnext

theorem Coherent.typing_of_typesOn {signal : Signal} (hcoherent : p.Coherent)
    (htypes : p.typesOn signal = true) : ∃ line alarm, p.Typing line alarm := by
  cases signal with
  | advance =>
      rw [typesOn, Bool.and_eq_true, decide_eq_true_eq] at htypes
      exact hcoherent.typing_of_phase_eq htypes.1 htypes.2
  | ringPending => exact hcoherent.typing_of_typesNext htypes
  | load script => contradiction

theorem Typing.ringPending_eq (htyping : p.Typing line alarm) : p.ringPending = p.ring alarm := by
  unfold ringPending
  simp only [htyping.pending_eq]

/-! ## Agreement, mode by mode -/

/-- What happens on stage does not move the two performances apart. -/
theorem SamePlace.of_sameRecord {a' b' : Performance} (hplace : SamePlace a b)
    (ha : SameRecord a a') (hb : SameRecord b b') (hcursor : b'.cursor = a'.cursor) :
    SamePlace a' b' := by
  refine ⟨?_, ?_, ?_, ?_, ?_, hcursor, ?_, ?_⟩
  · rw [hb.setup_eq]; exact hplace.isInstant_eq
  · rw [hb.setup_eq, ha.setup_eq]; exact hplace.handler_eq
  · rw [hb.setup_eq, ha.setup_eq]; exact hplace.announcesEnd_eq
  · rw [hb.script_eq, ha.script_eq]; exact hplace.script_eq
  · rw [hb.edition_eq, ha.edition_eq]; exact hplace.edition_eq
  · rw [hb.trail_eq, ha.trail_eq]; exact hplace.trail_eq
  · rw [hb.log_eq, ha.log_eq]; exact hplace.log_eq

theorem SamePlace.lineAt?_eq (hplace : SamePlace a b) (position : Nat) :
    b.script.lineAt? position = a.script.lineAt? position := by
  rw [hplace.script_eq]

/-- The first performance has the line on stage that the second shows in full. -/
theorem SamePlace.agrees_of_onStage (hplace : SamePlace a b) (ha : a.OnStage line)
    (hb : b.Shown line) : Agrees a b := by
  refine ⟨hplace, hb.live_eq.trans ha.live_eq.symm, ?_, ?_⟩
  · intro hsettled
    cases ha with
    | typing alarm htyping => exact absurd (hsettled.symm.trans htyping.typesNext_eq) (by decide)
    | shown hshown =>
        refine ⟨hb.shown_eq.trans hshown.shown_eq.symm,
          hb.revealed_eq.trans hshown.revealed_eq.symm, hb.phase_eq.trans hshown.phase_eq.symm, ?_⟩
        rw [hb.pending_eq, hshown.pending_eq]
  · -- There is one line at the cursor.
    intro text alarm htyping
    obtain rfl : line = text := by
      have htext := htyping.lineAt?_eq
      rw [← hplace.lineAt?_eq, ← hplace.cursor_eq, hb.lineAt?_eq] at htext
      exact Option.some.inj htext
    exact hb

/-- Neither performance is typing, and they look the same. -/
theorem SameStage.agrees (hstage : SameStage a b) (hlive : b.live = a.live)
    (hpending : b.pending.map Alarm.wait = a.pending.map Alarm.wait)
    (hsettled : a.live = false ∨ a.phase ≠ .typing) : Agrees a b := by
  refine ⟨hstage.toSamePlace, hlive,
    fun _ => ⟨hstage.shown_eq, hstage.revealed_eq, hstage.phase_eq, hpending⟩, ?_⟩
  intro line alarm htyping
  rcases hsettled with hfalse | hphase
  · exact absurd (hfalse.symm.trans htyping.live_eq) (by decide)
  · exact absurd htyping.phase_eq hphase

/-! ## Walking on side by side -/

theorem SamePlace.walkFrom_eq (hplace : SamePlace a b) (position : Nat) :
    b.walkFrom position = a.walkFrom position := by
  unfold walkFrom asked
  rw [hplace.script_eq, hplace.handler_eq, hplace.trail_eq]

theorem SameStage.record (hstage : SameStage a b) (walk : Walk) (live : Bool) :
    SameStage (a.record walk live) (b.record walk live) := by
  obtain ⟨⟨hinstant, hhandler, hend, hscript, hedition, hcursor, htrail, hlog⟩, hshown, hrevealed,
    hphase⟩ := hstage
  refine ⟨⟨hinstant, hhandler, hend, hscript, hedition, hcursor, ?_, ?_⟩, hshown, hrevealed, hphase⟩
  · exact congrArg (· ++ walk.visits) htrail
  · exact congrArg (· ++ walk.events) hlog

theorem beginLine_of_isInstant (hinstant : p.setup.tempo.isInstant = true)
    (hline : p.script.lineAt? position = some line) :
    p.beginLine position = .ok ({ p with cursor := position }.showWhole line) := by
  unfold beginLine
  simp only [hline, hinstant, if_true]
  rfl

theorem SameStage.finish (hstage : SameStage a b) (hphase : a.phase ≠ .ended) :
    SameStage a.finish b.finish ∧ b.finish.pending = a.finish.pending ∧
      b.finish.live = b.live ∧ a.finish.live = a.live ∧ a.finish.phase = .ended := by
  obtain ⟨⟨hinstant, hhandler, hend, hscript, hedition, hcursor, htrail, hlog⟩, hshown, hrevealed,
    hphase_eq⟩ := hstage
  have hphase_b : b.phase ≠ .ended := by rw [hphase_eq]; exact hphase
  have hlength : b.script.length = a.script.length := congrArg List.length hscript
  cases hannounces : a.setup.announcesEnd with
  | true =>
      rw [finish_of_announcesEnd hphase hannounces,
        finish_of_announcesEnd hphase_b (hend.trans hannounces)]
      exact ⟨⟨⟨hinstant, hhandler, hend, hscript, hedition, hlength, htrail,
        congrArg (· ++ [.complete]) hlog⟩, hshown, hrevealed, rfl⟩, rfl, rfl, rfl, rfl⟩
  | false =>
      rw [finish_of_not_announcesEnd hphase hannounces,
        finish_of_not_announcesEnd hphase_b (hend.trans hannounces)]
      exact ⟨⟨⟨hinstant, hhandler, hend, hscript, hedition, hlength, htrail, hlog⟩, rfl, rfl, rfl⟩,
        rfl, rfl, rfl, rfl⟩

/-- Performances that look the same walk on to the same place, and the second does not break off. -/
theorem SameStage.walkOn (hstage : SameStage a b) (hbetween : a.Between position) {a' : Performance}
    (harrival : Arrival a position a') : ∃ b', b.walkOn position = .ok b' ∧ Agrees a' b' := by
  have hwalk := hstage.walkFrom_eq position
  cases harrival with
  | line at_ line hstop _ hline hbegun =>
      have hrecord := hstage.record (a.walkFrom position) true
      have hline_b : b.script.lineAt? at_ = some line := (hstage.lineAt?_eq at_).trans hline
      have hbegin := beginLine_of_isInstant hrecord.isInstant_eq hline_b
      rw [← hwalk, ← walkOn_of_stop_line (hwalk ▸ hstop), hwalk] at hbegin
      refine ⟨_, hbegin, SamePlace.agrees_of_onStage ?_ (hbegun.onStage rfl hline)
        (shown_showWhole rfl hline_b)⟩
      exact hrecord.toSamePlace.of_sameRecord hbegun.sameRecord ⟨rfl, rfl, rfl, rfl, rfl⟩
        hbegun.cursor_eq.symm
  | pause at_ length hstop _ _ heq =>
      have hrecord := hstage.record (a.walkFrom position) false
      refine ⟨_, walkOn_of_stop_pause (hwalk ▸ hstop), ?_⟩
      rw [hwalk, heq]
      obtain ⟨⟨hinstant, hhandler, hend, hscript, hedition, hcursor, htrail, hlog⟩, hshown,
        hrevealed, hphase⟩ := hrecord
      exact SameStage.agrees ⟨⟨hinstant, hhandler, hend, hscript, hedition, hcursor, htrail, hlog⟩,
        hshown, hrevealed, hphase⟩ rfl rfl (.inl rfl)
  | ending hstop heq =>
      have hrecord := hstage.record (a.walkFrom position) true
      obtain ⟨hfinish, hpending, hlive_b, hlive_a, hphase⟩ :=
        hrecord.finish hbetween.phase_ne_ended
      refine ⟨_, walkOn_of_stop_ending (hwalk ▸ hstop), ?_⟩
      rw [hwalk, heq]
      refine hfinish.agrees (hlive_b.trans hlive_a.symm) (by rw [hpending]) (.inr ?_)
      rw [hphase]
      decide

/-! ## Signals side by side -/

/-- A signal has no effect or is met by an operation. -/
theorem eq_or_apply_of_perform {signal : Signal} (hperform : p.perform signal = .ok q) :
    q = p ∨ ∃ operation, p.apply operation = .ok q := by
  cases signal with
  | advance => exact .inr ⟨.advance, hperform⟩
  | ringPending =>
      rw [perform, ringPending] at hperform
      cases hpending : p.pending with
      | none =>
          simp only [hpending] at hperform
          exact .inl (Except.ok.inj hperform).symm
      | some alarm =>
          simp only [hpending] at hperform
          exact .inr ⟨.ring alarm, hperform⟩
  | load script => exact .inr ⟨.load script, hperform⟩

theorem coherent_of_perform {signal : Signal} (hcoherent : p.Coherent)
    (hperform : p.perform signal = .ok q) : q.Coherent := by
  rcases eq_or_apply_of_perform hperform with rfl | ⟨operation, happly⟩
  · exact hcoherent
  · exact (hcoherent.course happly).coherent hcoherent

theorem Agrees.sameStage (hagrees : Agrees a b) (hsettled : a.typesNext = false) :
    SameStage a b := by
  obtain ⟨hshown, hrevealed, hphase, -⟩ := hagrees.settled hsettled
  exact ⟨hagrees.toSamePlace, hshown, hrevealed, hphase⟩

/-- Signals that type on the present line keep it on stage. -/
theorem Typing.onStage_of_typesOn {signal : Signal} (htyping : p.Typing line alarm)
    (htypes : p.typesOn signal = true) (hperform : p.perform signal = .ok q) :
    q.OnStage line ∧ q.cursor = p.cursor ∧ SameRecord p q := by
  cases signal with
  | advance =>
      rw [perform, htyping.advance_eq] at hperform
      rw [← Except.ok.inj hperform]
      exact ⟨.shown (shown_showWhole htyping.live_eq htyping.lineAt?_eq), rfl,
        ⟨rfl, rfl, rfl, rfl, rfl⟩⟩
  | ringPending =>
      rw [perform, htyping.ringPending_eq, htyping.ring_eq] at hperform
      have htyped : Typed p.cancel line p.cursor q :=
        typed_of_typeNext htyping.toList_shown hperform
      obtain ⟨hsetup, hscript, hedition, htrail, hlog⟩ := htyped.sameRecord
      exact ⟨htyping.onStage_of_typed htyped, htyped.cursor_eq,
        ⟨hsetup, hscript, hedition, htrail, hlog⟩⟩
  | load script => contradiction

/-- A signal that only types on the present line is left out for the second performance. -/
theorem Agrees.of_typesOn {signal : Signal} {a' : Performance} (ha : a.Coherent)
    (hagrees : Agrees a b) (htypes : a.typesOn signal = true)
    (hperform : a.perform signal = .ok a') : Agrees a' b := by
  obtain ⟨line, alarm, htyping⟩ := ha.typing_of_typesOn htypes
  obtain ⟨hstage, hcursor, hsame⟩ := htyping.onStage_of_typesOn htypes hperform
  have hplace : SamePlace a' b :=
    hagrees.toSamePlace.of_sameRecord hsame (.refl b) (hagrees.cursor_eq.trans hcursor.symm)
  exact hplace.agrees_of_onStage hstage (hagrees.whole line alarm htyping)

theorem Agrees.advance {a' : Performance} (ha : a.Coherent) (hb : b.Coherent)
    (hagrees : Agrees a b) (htypes : a.typesOn .advance = false) (hadvance : a.advance = .ok a') :
    ∃ b', b.advance = .ok b' ∧ Agrees a' b' := by
  cases ha.course_advance hadvance with
  | unheard hstill =>
      refine ⟨b, ?_, hagrees⟩
      rcases hstill with ⟨position, alarm, hpaused⟩ | hended
      · obtain ⟨_, _, hpaused_b⟩ := hb.paused_of_live_eq (hagrees.live_eq.trans hpaused.live_eq)
        exact hpaused_b.advance_eq
      · have hsettled : a.typesNext = false := by
          unfold typesNext
          rw [hended.pending_eq]
          rfl
        have hphase := (hagrees.sameStage hsettled).phase_eq.trans hended.phase_eq
        exact (hb.ended_of_phase_eq hphase).advance_eq
  | wholeLine line alarm htyping =>
      rw [typesOn, htyping.live_eq, htyping.phase_eq] at htypes
      contradiction
  | wentOn line _ hshown harrival =>
      have hsettled : a.typesNext = false := by
        unfold typesNext
        rw [hshown.pending_eq]
        rfl
      have hstage := hagrees.sameStage hsettled
      have hadvance_b : b.advance = b.walkOn (b.cursor + 1) := by
        unfold Performance.advance
        simp only [hagrees.live_eq.trans hshown.live_eq, hstage.phase_eq.trans hshown.phase_eq,
          if_true]
      rw [hadvance_b, hagrees.cursor_eq]
      exact hstage.walkOn hshown.between harrival

theorem Agrees.ringPending {a' : Performance} (ha : a.Coherent) (hb : b.Coherent)
    (hagrees : Agrees a b) (hsettled : a.typesNext = false) (hring : a.ringPending = .ok a') :
    ∃ b', b.ringPending = .ok b' ∧ Agrees a' b' := by
  obtain ⟨-, -, -, hpending⟩ := hagrees.settled hsettled
  unfold Performance.ringPending at hring ⊢
  cases ha with
  | typing line alarm htyping =>
      exact absurd (hsettled.symm.trans htyping.typesNext_eq) (by decide)
  | shown line hshown =>
      rw [hshown.pending_eq, Option.map_none, Option.map_eq_none_iff] at hpending
      simp only [hshown.pending_eq] at hring
      rw [← Except.ok.inj hring]
      exact ⟨b, by simp only [hpending], hagrees⟩
  | paused position alarm hpaused =>
      obtain ⟨at_, alarm_b, hpaused_b⟩ :=
        hb.paused_of_live_eq (hagrees.live_eq.trans hpaused.live_eq)
      -- Both wait for the same position, for their alarms have the same purpose.
      obtain rfl : at_ = position := by
        rw [hpaused_b.pending_eq, hpaused.pending_eq, Option.map_some, Option.map_some,
          Option.some.injEq, Alarm.wait, Alarm.wait, Prod.mk.injEq, hpaused_b.purpose_eq,
          hpaused.purpose_eq, Purpose.walkOn.injEq] at hpending
        exact Nat.succ.inj hpending.2
      simp only [hpaused.pending_eq, hpaused.ring_eq] at hring
      simp only [hpaused_b.pending_eq, hpaused_b.ring_eq]
      obtain ⟨⟨hinstant, hhandler, hend, hscript, hedition, hcursor, htrail, hlog⟩, hshown,
        hrevealed, hphase⟩ := hagrees.sameStage hsettled
      have hstage : SameStage a.cancel b.cancel :=
        ⟨⟨hinstant, hhandler, hend, hscript, hedition, hcursor, htrail, hlog⟩, hshown, hrevealed,
          hphase⟩
      exact hstage.walkOn hpaused.between_resumed (arrival_of_walkOn hring)
  | ended hended =>
      rw [hended.pending_eq, Option.map_none, Option.map_eq_none_iff] at hpending
      simp only [hended.pending_eq] at hring
      rw [← Except.ok.inj hring]
      exact ⟨b, by simp only [hpending], hagrees⟩

theorem SamePlace.load (hplace : SamePlace a b) {script : Script} {a' : Performance}
    (hload : a.load script = .ok a') : ∃ b', b.load script = .ok b' ∧ Agrees a' b' := by
  obtain ⟨hinstant, hhandler, hend, -, hedition, -, htrail, hlog⟩ := hplace
  have hstage : SameStage (a.reload script) (b.reload script) :=
    ⟨⟨hinstant, hhandler, hend, rfl, congrArg Nat.succ hedition, rfl, htrail, hlog⟩, rfl, rfl, rfl⟩
  exact hstage.walkOn (a.between_reload script) (arrival_of_walkOn hload)

/-- A signal that does more is carried out by both. -/
theorem Agrees.perform {signal : Signal} {a' : Performance} (ha : a.Coherent) (hb : b.Coherent)
    (hagrees : Agrees a b) (htypes : a.typesOn signal = false)
    (hperform : a.perform signal = .ok a') : ∃ b', b.perform signal = .ok b' ∧ Agrees a' b' := by
  cases signal with
  | advance => exact hagrees.advance ha hb htypes hperform
  | ringPending => exact hagrees.ringPending ha hb htypes hperform
  | load script => exact hagrees.load hperform

/-- Along any signals, the two performances stay in agreement. -/
theorem Agrees.performAll {signals : List Signal} {a' : Performance} (ha : a.Coherent)
    (hb : b.Coherent) (hagrees : Agrees a b) (hrun : a.performAll signals = .ok a') :
    ∃ b', b.performAll (a.thinned signals) = .ok b' ∧ Agrees a' b' := by
  induction signals generalizing a b with
  | nil =>
      rw [← Except.ok.inj hrun]
      exact ⟨b, rfl, hagrees⟩
  | cons signal rest ih =>
      rw [Performance.performAll] at hrun
      rw [thinned]
      cases hperform : a.perform signal with
      | error fault => simp [hperform] at hrun
      | ok next =>
          simp only [hperform] at hrun ⊢
          have hnext : next.Coherent := coherent_of_perform ha hperform
          cases htypes : a.typesOn signal with
          | true =>
              -- Only the first performance moves.
              simp only [if_true]
              exact ih hnext hb (hagrees.of_typesOn ha htypes hperform) hrun
          | false =>
              obtain ⟨next_b, hperform_b, hagrees_next⟩ := hagrees.perform ha hb htypes hperform
              simp only [Bool.false_eq_true, if_false, Performance.performAll, hperform_b]
              exact ih hnext (coherent_of_perform hb hperform_b) hagrees_next hrun

/-- On one script and with the same handler, a performance with any interval and one without stay
together: after any signals that do not break the first off, the second, which was given only those
that do more than type, has the same cursor, heed for the reader, edition and log; and unless the
first is about to type, the two look the same and wait in the same way.  A line that is being typed
comes to the same whether its alarms ring to the end or the reader cuts it short at any point. -/
theorem instant_agrees {animated instant : Setup} {script : Script} {a₀ a : Performance}
    {signals : List Signal} (hinstant : instant.tempo.isInstant = true)
    (hhandler : instant.handler = animated.handler)
    (hend : instant.announcesEnd = animated.announcesEnd)
    (hstart : start animated script = .ok a₀) (hrun : a₀.performAll signals = .ok a) :
    (∃ b₀ b, start instant script = .ok b₀ ∧ b₀.performAll (a₀.thinned signals) = .ok b ∧
      b.cursor = a.cursor ∧ b.live = a.live ∧ b.edition = a.edition ∧ b.log = a.log ∧
      (a.typesNext = false →
        b.shown = a.shown ∧ b.phase = a.phase ∧ b.revealed = a.revealed ∧
          b.pending.map Alarm.wait = a.pending.map Alarm.wait)) ∧
      ∀ line alarm, a.Typing line alarm →
        ∀ shorter early earlier, a.drain shorter = .ok (early, earlier) → early.pending ≠ none →
          ∃ r, early.advance = .ok r ∧
            ∀ limit q alarms, line.length ≤ limit → a.drain limit = .ok (q, alarms) →
              q.pending = none ∧ q.uncounted = r.uncounted := by
  have hinitial : SameStage { setup := animated, script } { setup := instant, script } :=
    ⟨⟨hinstant, hhandler, hend, rfl, rfl, rfl, rfl, rfl⟩, rfl, rfl, rfl⟩
  obtain ⟨b₀, hstart_b, hagrees₀⟩ :=
    hinitial.walkOn (between_initial animated script) (arrival_of_start hstart)
  obtain ⟨b, hrun_b, hagrees⟩ :=
    hagrees₀.performAll (coherent_of_start hstart) (coherent_of_start hstart_b) hrun
  refine ⟨⟨b₀, b, hstart_b, hrun_b, hagrees.cursor_eq, hagrees.live_eq, hagrees.edition_eq,
    hagrees.log_eq, ?_⟩, ?_⟩
  · intro hsettled
    obtain ⟨hshown, hrevealed, hphase, hpending⟩ := hagrees.settled hsettled
    exact ⟨hshown, hphase, hrevealed, hpending⟩
  · intro line alarm htyping shorter early earlier hearly hpending
    exact htyping.advance_eq_drain hearly hpending

/-- A line is typed by one alarm and then cut short, before a pause. -/
theorem instant_agrees_of_cut_short :
    ∃ a₀ a b₀ b, start {} [.line "Hey", .pause (.ofMillis 5)] = .ok a₀ ∧
      a₀.performAll [.ringPending, .advance, .advance] = .ok a ∧
      start { tempo := { interval := 0 } } [.line "Hey", .pause (.ofMillis 5)] = .ok b₀ ∧
      b₀.performAll (a₀.thinned [.ringPending, .advance, .advance]) = .ok b ∧
      b.cursor = a.cursor ∧ b.live = a.live ∧ b.edition = a.edition ∧ b.log = a.log ∧
      a.typesNext = false ∧ b.shown = a.shown ∧
      b.pending.map Alarm.wait = a.pending.map Alarm.wait := by
  have hruns : ∃ a₀ a, start {} [.line "Hey", .pause (.ofMillis 5)] = .ok a₀ ∧
      a₀.performAll [.ringPending, .advance, .advance] = .ok a ∧ a.typesNext = false :=
    ⟨_, _, rfl, rfl, rfl⟩
  obtain ⟨a₀, a, hstart, hrun, hsettled⟩ := hruns
  have hinstant : ({ tempo := { interval := 0 } } : Setup).tempo.isInstant = true := by decide
  have hhandler : ({ tempo := { interval := 0 } } : Setup).handler = ({} : Setup).handler := rfl
  have hend : ({ tempo := { interval := 0 } } : Setup).announcesEnd = ({} : Setup).announcesEnd :=
    rfl
  obtain ⟨⟨b₀, b, hstart_b, hrun_b, hcursor, hlive, hedition, hlog, hsame⟩, -⟩ :=
    instant_agrees hinstant hhandler hend hstart hrun
  obtain ⟨hshown, -, -, hpending⟩ := hsame hsettled
  exact ⟨a₀, a, b₀, b, hstart, hrun, hstart_b, hrun_b, hcursor, hlive, hedition, hlog, hsettled,
    hshown, hpending⟩

end Performance

end Typewriter

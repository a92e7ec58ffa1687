import Typewriter.Proofs.Performance.Course

/-!
# Draining a line

To drain a performance is to ring its pending alarms until there is none.  While a line is being
typed, each of them types one more character, so as many alarms as the line has characters are
enough.  `Typing.onStage_of_drain` says that the line stays on stage meanwhile, and that showing it
in full at any point leads to one and the same performance, up to the counters for serial numbers
and for draws.  So it makes no difference whether a line is drained or cut short by the reader
(`Typing.advance_eq_drain`).
-/

namespace Typewriter

namespace Performance

/-- The performance without its counters. -/
def uncounted (p : Performance) : Performance :=
  { p with nextSerial := 0, typed := 0 }

variable {p q : Performance} {line : String} {alarm : Alarm} {limit : Nat} {alarms : List Alarm}

theorem drain_zero (p : Performance) : p.drain 0 = .ok (p, []) := rfl

theorem drain_of_pending_eq_none (hpending : p.pending = none) (limit : Nat) :
    p.drain limit = .ok (p, []) := by
  cases limit with
  | zero => rfl
  | succ limit =>
      unfold drain
      rw [hpending]

theorem drain_succ (hpending : p.pending = some alarm) (limit : Nat) :
    p.drain (limit + 1) =
      match p.ring alarm with
      | .error fault => .error fault
      | .ok next =>
          match next.drain limit with
          | .error fault => .error fault
          | .ok (last, alarms) => .ok (last, alarm :: alarms) := by
  have heq := drain.eq_def (limit + 1) p
  rw [hpending] at heq
  exact heq

theorem drain_succ_of_pending_eq_some (hpending : p.pending = some alarm)
    (hdrain : p.drain (limit + 1) = .ok (q, alarms)) :
    ∃ next rest, p.ring alarm = .ok next ∧ next.drain limit = .ok (q, rest) ∧
      alarms = alarm :: rest := by
  rw [drain_succ hpending] at hdrain
  cases hring : p.ring alarm with
  | error fault => simp [hring] at hdrain
  | ok next =>
      simp only [hring] at hdrain
      cases hrest : next.drain limit with
      | error fault => simp [hrest] at hdrain
      | ok result =>
          obtain ⟨last, rest⟩ := result
          simp only [hrest, Except.ok.injEq, Prod.mk.injEq] at hdrain
          obtain ⟨rfl, rfl⟩ := hdrain
          exact ⟨next, rest, rfl, hrest, rfl⟩

theorem Typed.uncounted_showWhole {position : Nat} (htyped : Typed p line position q) :
    (q.showWhole line).uncounted = (p.showWhole line).uncounted := by
  cases htyped with
  | whole _ heq => rw [heq]; rfl
  | char _ _ _ _ _ heq => rw [heq]; rfl

theorem Shown.showWhole_eq (hshown : p.Shown line) : p.showWhole line = p := by
  obtain ⟨hphase, -, -, hshown, hrevealed, hpending⟩ := hshown
  unfold showWhole
  rw [← hphase, ← hpending, ← hrevealed, ← hshown]

/-- While a line is drained it stays on stage; shown in full it is the same as without draining;
and as many alarms as it has hidden characters are enough. -/
theorem Typing.onStage_of_drain (htyping : p.Typing line alarm)
    (hdrain : p.drain limit = .ok (q, alarms)) :
    q.OnStage line ∧ (q.showWhole line).uncounted = (p.showWhole line).uncounted ∧
      (line.length ≤ p.revealed + limit → q.pending = none) := by
  induction limit generalizing p alarm alarms with
  | zero =>
      rw [drain_zero, Except.ok.injEq, Prod.mk.injEq] at hdrain
      obtain ⟨rfl, -⟩ := hdrain
      refine ⟨.typing alarm htyping, rfl, fun hle => ?_⟩
      -- A line that is being typed has a hidden character, for which an alarm is needed.
      exact absurd htyping.revealed_lt (Nat.not_lt.mpr hle)
  | succ limit ih =>
      obtain ⟨next, rest, hring, hrest, -⟩ :=
        drain_succ_of_pending_eq_some htyping.pending_eq hdrain
      rw [htyping.ring_eq] at hring
      have htyped : Typed p.cancel line p.cursor next :=
        typed_of_typeNext htyping.toList_shown hring
      have hwhole : (next.showWhole line).uncounted = (p.showWhole line).uncounted :=
        htyped.uncounted_showWhole
      cases htyping.onStage_of_typed htyped with
      | typing alarm' htyping' =>
          have hrevealed : next.revealed = p.revealed + 1 := htyped.revealed_eq htyping'.phase_eq
          -- One more character is visible and one alarm fewer is left.
          obtain ⟨hstage, hsame, henough⟩ := ih htyping' hrest
          refine ⟨hstage, hsame.trans hwhole, fun hle => henough ?_⟩
          omega
      | shown hshown =>
          rw [drain_of_pending_eq_none hshown.pending_eq, Except.ok.injEq, Prod.mk.injEq] at hrest
          obtain ⟨rfl, -⟩ := hrest
          exact ⟨.shown hshown, hwhole, fun _ => hshown.pending_eq⟩

theorem OnStage.typing_of_pending (hstage : p.OnStage line) (hpending : p.pending ≠ none) :
    ∃ alarm, p.Typing line alarm := by
  cases hstage with
  | typing alarm htyping => exact ⟨alarm, htyping⟩
  | shown hshown => exact absurd hshown.pending_eq hpending

theorem OnStage.shown_of_pending (hstage : p.OnStage line) (hpending : p.pending = none) :
    p.Shown line := by
  cases hstage with
  | typing alarm htyping =>
      rw [htyping.pending_eq] at hpending
      contradiction
  | shown hshown => exact hshown

/-- A reader who cuts a line short at any point sees what the alarms would have led to. -/
theorem Typing.advance_eq_drain {early : Performance} {shorter : Nat} {earlier : List Alarm}
    (htyping : p.Typing line alarm) (hearly : p.drain shorter = .ok (early, earlier))
    (hpending : early.pending ≠ none) :
    ∃ r, early.advance = .ok r ∧
      ∀ limit q alarms, line.length ≤ limit → p.drain limit = .ok (q, alarms) →
        q.pending = none ∧ q.uncounted = r.uncounted := by
  obtain ⟨hstage, hcut, -⟩ := htyping.onStage_of_drain hearly
  obtain ⟨alarm', htyping'⟩ := hstage.typing_of_pending hpending
  refine ⟨early.showWhole line, htyping'.advance_eq, ?_⟩
  intro limit q alarms hle hdrain
  obtain ⟨hstage_q, hwhole, henough⟩ := htyping.onStage_of_drain hdrain
  have hnone : q.pending = none := henough (Nat.le_add_left_of_le hle)
  rw [(hstage_q.shown_of_pending hnone).showWhole_eq] at hwhole
  exact ⟨hnone, hwhole.trans hcut.symm⟩

end Performance

end Typewriter

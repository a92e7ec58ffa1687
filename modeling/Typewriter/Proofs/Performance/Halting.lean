import Typewriter.Proofs.Attempt
import Typewriter.Proofs.Performance.AlarmsLeft
import Typewriter.Proofs.Performance.Traversal
import Typewriter.Proofs.Performance.Unbroken
import Typewriter.Proofs.StatefulHandlers

/-!
# Performances never get stuck

If nobody asks for anything, the pending alarms ring one after the other, and at some time there is
none: `alarmsLeft` counts them down.  Then either the script is at its end or a line is shown in
full, behind which the reader can go on.  And if he goes on, the walk is taken up behind the line,
so that the next line which is shown in full stands further back in the script.  `Drained` says what
ringing the pending alarms does, and `Shown.of_goOn` what going on does.

The main statement is `never_gets_stuck`.
-/

namespace Typewriter

namespace Performance

/-- As many alarms as the script has pauses and its longest line has characters. -/
def mostAlarms (p : Performance) : Nat :=
  p.script.pauseCount + p.script.longestLine

/-- The reader asks to go on, and then waits while alarms are pending. -/
def goOn (p : Performance) : Except Fault Performance := do
  let next ← p.advance
  let (last, _) ← next.drain next.mostAlarms
  return last

/-- Go on so many times. -/
def goOnTimes (p : Performance) : (rounds : Nat) → Except Fault Performance
  | 0 => .ok p
  | rounds + 1 => do (← p.goOn).goOnTimes rounds

/-- The script has come to its end, or the walk is to be taken up behind a position. -/
def IsPast (p : Performance) (position : Nat) : Prop :=
  p.Ended ∨ position < p.resumesAt

variable {p q r : Performance} {line : String} {alarm : Alarm} {position limit rounds : Nat}
  {alarms : List Alarm}

/-! ## Never back -/

/-- Walking on from a position leads past it. -/
theorem Arrival.isPast (hbetween : p.Between position) (harrival : Arrival p position q) :
    q.IsPast position := by
  have hwithin := p.script.walkFrom_stop_within p.setup.handler p.asked position
  have hplace := harrival.place hbetween
  rw [← walkFrom] at hwithin
  generalize (p.walkFrom position).stop = stop at hwithin hplace
  cases hplace with
  | line line hstage =>
      refine .inr ?_
      rw [hstage.resumesAt_eq]
      exact Nat.lt_succ_of_le hwithin.1
  | pause at_ alarm hpaused =>
      obtain ⟨_, hle, hnext, -⟩ := hwithin
      refine .inr ?_
      rw [hpaused.resumesAt_eq, hnext]
      exact Nat.lt_succ_of_le hle
  | ending hended => exact .inl hended

theorem Coherent.isPast_of_ring (hcoherent : p.Coherent) (hring : p.ring alarm = .ok q)
    (hpast : p.IsPast position) : q.IsPast position := by
  cases hcoherent.course_ring hring with
  | stale => exact hpast
  | nextChar line _ _ htyping htyped =>
      -- The line stays on stage.
      have hstage : p.OnStage line := .typing alarm htyping
      have hcursor : q.cursor = p.cursor := htyped.cursor_eq
      rcases hpast with hended | hlt
      · exact absurd hended.phase_eq hstage.phase_ne_ended
      · rw [hstage.resumesAt_eq, ← hcursor, ← (htyping.onStage_of_typed htyped).resumesAt_eq] at hlt
        exact .inr hlt
  | resumed at_ _ _ hpaused harrival =>
      rcases hpast with hended | hlt
      · exact absurd hended.phase_eq hpaused.between.phase_ne_ended
      · rw [hpaused.resumesAt_eq] at hlt
        exact (harrival.isPast hpaused.between_resumed).imp_right (Nat.lt_trans hlt)

/-! ## Draining -/

/-- What a coherent performance becomes when no more than `limit` pending alarms ring. -/
structure Drained (p : Performance) (limit : Nat) (q : Performance) (alarms : List Alarm) :
    Prop where
  coherent : q.Coherent
  setup_eq : q.setup = p.setup
  script_eq : q.script = p.script
  isPast : ∀ position, p.IsPast position → q.IsPast position
  alarms_le : alarms.length + q.alarmsLeft ≤ p.alarmsLeft
  pending_eq_or : q.pending = none ∨ alarms.length = limit

theorem Coherent.drained (hcoherent : p.Coherent) (hdrain : p.drain limit = .ok (q, alarms)) :
    Drained p limit q alarms := by
  induction limit generalizing p alarms with
  | zero =>
      rw [drain_zero, Except.ok.injEq, Prod.mk.injEq] at hdrain
      obtain ⟨rfl, rfl⟩ := hdrain
      exact ⟨hcoherent, rfl, rfl, fun _ hpast => hpast, Nat.le_of_eq (Nat.zero_add _), .inr rfl⟩
  | succ limit ih =>
      cases hpending : p.pending with
      | none =>
          rw [drain_of_pending_eq_none hpending, Except.ok.injEq, Prod.mk.injEq] at hdrain
          obtain ⟨rfl, rfl⟩ := hdrain
          exact ⟨hcoherent, rfl, rfl, fun _ hpast => hpast, Nat.le_of_eq (Nat.zero_add _),
            .inl hpending⟩
      | some alarm =>
          obtain ⟨next, rest, hring, hrest, rfl⟩ := drain_succ_of_pending_eq_some hpending hdrain
          have hcourse := hcoherent.course_ring hring
          have hless := hcoherent.alarmsLeft_lt hpending hring
          obtain ⟨hsetup, hscript, -⟩ := hcourse.setup_script_edition
          obtain ⟨hcoherent', hsetup', hscript', hpast, hle, hnone⟩ :=
            ih (hcourse.coherent hcoherent) hrest
          refine ⟨hcoherent', hsetup'.trans hsetup, hscript'.trans hscript, ?_, ?_, ?_⟩
          · intro position hbefore
            exact hpast position (hcoherent.isPast_of_ring hring hbefore)
          · rw [List.length_cons]
            omega
          · exact hnone.imp_right fun hlength => congrArg (· + 1) hlength

/-- With no alarm left, none is pending. -/
theorem Drained.pending_eq (hdrained : Drained p limit q alarms) (hle : p.alarmsLeft ≤ limit) :
    q.pending = none := by
  rcases hdrained.pending_eq_or with hnone | hlength
  · exact hnone
  · have hzero : q.alarmsLeft = 0 := by
      have hleft := hdrained.alarms_le
      omega
    cases hpending : q.pending with
    | none => rfl
    | some alarm =>
        have hpos : 0 < q.alarmsLeft := hdrained.coherent.alarmsLeft_pos hpending
        omega

/-- Once the limit is not below the alarms that are left, it makes no difference. -/
theorem Coherent.drain_eq_drain {limit' : Nat} (hcoherent : p.Coherent)
    (hle : p.alarmsLeft ≤ limit) (hle' : p.alarmsLeft ≤ limit') :
    p.drain limit = p.drain limit' := by
  induction limit generalizing p limit' with
  | zero =>
      cases hpending : p.pending with
      | none => rw [drain_of_pending_eq_none hpending, drain_of_pending_eq_none hpending]
      | some alarm => exact absurd hle (Nat.not_le.mpr (hcoherent.alarmsLeft_pos hpending))
  | succ limit ih =>
      cases hpending : p.pending with
      | none => rw [drain_of_pending_eq_none hpending, drain_of_pending_eq_none hpending]
      | some alarm =>
          have hpos : 0 < p.alarmsLeft := hcoherent.alarmsLeft_pos hpending
          obtain ⟨limit', rfl⟩ : ∃ shorter, limit' = shorter + 1 :=
            Nat.exists_eq_add_one.mpr (Nat.lt_of_lt_of_le hpos hle')
          rw [drain_succ hpending, drain_succ hpending]
          cases hring : p.ring alarm with
          | error fault => rfl
          | ok next =>
              have hless := hcoherent.alarmsLeft_lt hpending hring
              have hrest : next.drain limit = next.drain limit' :=
                ih ((hcoherent.course_ring hring).coherent hcoherent) (by omega) (by omega)
              simp only [hrest]

/-- Where no alarm is pending, the script is at its end or a line is shown in full. -/
theorem Coherent.ended_or_shown (hcoherent : p.Coherent) (hpending : p.pending = none) :
    p.Ended ∨ ∃ line, p.Shown line := by
  cases hcoherent with
  | typing line alarm htyping => exact absurd (hpending.symm.trans htyping.pending_eq) nofun
  | shown line hshown => exact .inr ⟨line, hshown⟩
  | paused position alarm hpaused => exact absurd (hpending.symm.trans hpaused.pending_eq) nofun
  | ended hended => exact .inl hended

/-! ## Going on -/

theorem goOn_of_drain (hadvance : p.advance = .ok q)
    (hdrain : q.drain q.mostAlarms = .ok (r, alarms)) : p.goOn = .ok r := by
  unfold goOn
  rw [hadvance]
  show (q.drain q.mostAlarms >>= fun result => Except.ok result.1) = .ok r
  rw [hdrain]
  rfl

/-- Behind the end nothing happens any more. -/
theorem Ended.goOn_eq (hended : p.Ended) : p.goOn = .ok p :=
  goOn_of_drain hended.advance_eq (drain_of_pending_eq_none hended.pending_eq _)

/-- From a line that is shown in full, going on leads to one further back, or to the end. -/
theorem Shown.of_goOn (hshown : p.Shown line) (hgo : p.goOn = .ok q) :
    q.script = p.script ∧ (q.Ended ∨ ∃ next, q.Shown next ∧ p.cursor < q.cursor) := by
  obtain ⟨next, hadvance, hgo⟩ := bind_eq_ok hgo
  obtain ⟨⟨last, alarms⟩, hdrain, hgo⟩ := bind_eq_ok hgo
  obtain rfl : last = q := Except.ok.inj hgo
  rw [hshown.advance_eq] at hadvance
  have harrival : Arrival p (p.cursor + 1) next := arrival_of_walkOn hadvance
  have hnext : next.Coherent := harrival.coherent hshown.between
  have hdrained : Drained next next.mostAlarms last alarms := hnext.drained hdrain
  refine ⟨hdrained.script_eq.trans harrival.record_eq.2.1, ?_⟩
  rcases hdrained.coherent.ended_or_shown (hdrained.pending_eq hnext.alarmsLeft_le) with
    hended | ⟨text, hshown'⟩
  · exact .inl hended
  · rcases hdrained.isPast _ (harrival.isPast hshown.between) with hended | hlt
    · exact .inl hended
    · rw [(OnStage.shown hshown').resumesAt_eq] at hlt
      exact .inr ⟨text, hshown', Nat.lt_of_succ_lt_succ hlt⟩

/-- As many times as there are cues from the line on are enough. -/
theorem ended_of_goOnTimes (hrest : p.Ended ∨ ∃ line, p.Shown line)
    (hle : p.script.length - p.cursor ≤ rounds) (hgo : p.goOnTimes rounds = .ok q) : q.Ended := by
  induction rounds generalizing p with
  | zero =>
      obtain rfl : p = q := Except.ok.inj hgo
      rcases hrest with hended | ⟨line, hshown⟩
      · exact hended
      · -- The line at the cursor is itself one of the cues.
        have hlt : p.cursor < p.script.length := lt_length_of_lineAt?_eq_some hshown.lineAt?_eq
        omega
  | succ rounds ih =>
      obtain ⟨next, hnext, hgo⟩ := bind_eq_ok hgo
      rcases hrest with hended | ⟨line, hshown⟩
      · rw [hended.goOn_eq] at hnext
        obtain rfl : p = next := Except.ok.inj hnext
        have hcursor := hended.cursor_eq
        exact ih (.inl hended) (by omega) hgo
      · obtain ⟨hscript, hrest⟩ := hshown.of_goOn hnext
        rcases hrest with hended | ⟨text, hshown', hlt⟩
        · have hcursor := hended.cursor_eq
          exact ih (.inl hended) (by omega) hgo
        · have hlength : next.script.length = p.script.length := congrArg List.length hscript
          exact ih (.inr ⟨text, hshown'⟩) (by omega) hgo

theorem exists_goOnTimes (hcoherent : p.Coherent) (hfits : p.setup.tempo.Fits) (rounds : Nat) :
    ∃ q, p.goOnTimes rounds = .ok q := by
  induction rounds generalizing p with
  | zero => exact ⟨p, rfl⟩
  | succ rounds ih =>
      obtain ⟨next, hadvance⟩ := exists_advance hfits
      have hcourse := hcoherent.course_advance hadvance
      have hsetup : next.setup = p.setup := hcourse.setup_script_edition.1
      have hnext : next.Coherent := hcourse.coherent hcoherent
      obtain ⟨last, alarms, hdrain⟩ := exists_drain hnext (hsetup ▸ hfits) next.mostAlarms
      have hdrained := hnext.drained hdrain
      obtain ⟨q, hq⟩ := ih hdrained.coherent (hdrained.setup_eq.trans hsetup ▸ hfits)
      have hgo : p.goOn = .ok last := goOn_of_drain hadvance hdrain
      refine ⟨q, ?_⟩
      show (p.goOn >>= fun next => next.goOnTimes rounds) = .ok q
      rw [hgo]
      exact hq

/-- A walk through any script, with any handler, comes to no more cues than are left and asks the
handler at most once for each line: a handler with a state is asked exactly the queries of the walk,
whose positions grow.  And whatever was done to a performance, no more alarms ring one after the
other than the script has pauses and its longest line has characters.  Then the script is at its
end, or a line is shown in full; and from there, to go on as many times as there are cues from the
cursor on leads to the end.  If the delays fit into durations, none of this is broken off. -/
theorem never_gets_stuck {setup : Setup} {script : Script} {p₀ p : Performance}
    {operations : List Operation} (hstart : start setup script = .ok p₀)
    (hrun : p₀.run operations = .ok p) :
    (∀ (cues : Script) (σ : Type) (ask : StatefulHandler σ) (state : σ) (asked : List Query)
        (position : Nat), ∃ walk : Walk, walk.AsksOnce cues position ∧
        walk = cues.walkFrom (ask.remembering state) asked position ∧
        cues.walkAsking ask (ask.after state asked) position =
          (walk, ask.after state (asked ++ walk.queries))) ∧
      (∀ limit, p.mostAlarms ≤ limit → p.drain limit = p.drain p.mostAlarms) ∧
      (∀ limit q alarms, p.drain limit = .ok (q, alarms) → alarms.length ≤ p.mostAlarms) ∧
      (∀ q alarms, p.drain p.mostAlarms = .ok (q, alarms) →
        (q.Ended ∨ ∃ line, q.Shown line) ∧
          ∀ rounds last, q.script.length - q.cursor ≤ rounds → q.goOnTimes rounds = .ok last →
            last.Ended) ∧
      (setup.tempo.Fits → ∃ q alarms last, p.drain p.mostAlarms = .ok (q, alarms) ∧
        q.goOnTimes (q.script.length - q.cursor) = .ok last) := by
  have hcoherent : p.Coherent := coherent_of_run (coherent_of_start hstart) hrun
  have hleft : p.alarmsLeft ≤ p.mostAlarms := hcoherent.alarmsLeft_le
  refine ⟨?_, ?_, ?_, ?_, ?_⟩
  · intro cues σ ask state asked position
    exact ⟨_, cues.asksOnce_walkFrom _ asked position, rfl,
      cues.walkAsking_eq ask state asked position⟩
  · intro limit hle
    exact hcoherent.drain_eq_drain (Nat.le_trans hleft hle) hleft
  · intro limit q alarms hdrain
    have hle := (hcoherent.drained hdrain).alarms_le
    omega
  · intro q alarms hdrain
    have hdrained := hcoherent.drained hdrain
    have hrest : q.Ended ∨ ∃ line, q.Shown line :=
      hdrained.coherent.ended_or_shown (hdrained.pending_eq hleft)
    exact ⟨hrest, fun rounds last hle hgo => ended_of_goOnTimes hrest hle hgo⟩
  · intro hfits
    obtain ⟨hsetup, -⟩ := setup_script_edition_of_run hstart hrun
    obtain ⟨q, alarms, hdrain⟩ := exists_drain hcoherent (hsetup ▸ hfits) p.mostAlarms
    have hdrained := hcoherent.drained hdrain
    obtain ⟨last, hlast⟩ := exists_goOnTimes hdrained.coherent
      ((hdrained.setup_eq.trans hsetup) ▸ hfits) (q.script.length - q.cursor)
    exact ⟨q, alarms, last, hdrain, hlast⟩

/-- A handler that counts its queries and leaves every line behind. -/
def countingSkips : StatefulHandler Nat :=
  fun count query => (⟨query.position + 1, []⟩, count + 1)

/-- The alarms of a pause and of a line of two ring before the reader can go on, and three cues are
left from there.  In two lines the counting handler counts two. -/
theorem never_gets_stuck_of_pause :
    ∃ script p₀ p q alarms last,
      script = [.pause (.ofMillis 5), .line "ab", .effect "bell", .line "c"] ∧
      start {} script = .ok p₀ ∧ p₀.run [.advance] = .ok p ∧
      p.drain p.mostAlarms = .ok (q, alarms) ∧ alarms.length ≤ 3 ∧
      q.script.length - q.cursor = 3 ∧ q.goOnTimes 3 = .ok last ∧ last.Ended ∧
      (Script.walkAsking [.line "a", .line "b"] countingSkips 0 0).2 = 2 := by
  have hruns : ∃ script p₀ p q alarms last,
      script = [.pause (.ofMillis 5), .line "ab", .effect "bell", .line "c"] ∧
      start {} script = .ok p₀ ∧ p₀.run [.advance] = .ok p ∧
      p.drain p.mostAlarms = .ok (q, alarms) ∧ p.mostAlarms = 3 ∧
      q.script.length - q.cursor = 3 ∧ q.goOnTimes 3 = .ok last :=
    ⟨_, _, _, _, _, _, rfl, rfl, rfl, rfl, rfl, rfl, rfl⟩
  obtain ⟨script, p₀, p, q, alarms, last, hscript, hstart, hrun, hdrain, hmost, hcues, hlast⟩ :=
    hruns
  obtain ⟨hasks, -, hbound, hends, -⟩ := never_gets_stuck hstart hrun
  have hlength : alarms.length ≤ 3 := hmost ▸ hbound _ q alarms hdrain
  have hended : last.Ended := (hends q alarms hdrain).2 3 last (Nat.le_of_eq hcues) hlast
  obtain ⟨walk, -, hwalk, hcounts⟩ := hasks [.line "a", .line "b"] Nat countingSkips 0 [] 0
  have hcounted : Script.walkAsking [.line "a", .line "b"] countingSkips 0 0 =
      (walk, countingSkips.after 0 walk.queries) := hcounts
  refine ⟨script, p₀, p, q, alarms, last, hscript, hstart, hrun, hdrain, hlength, hcues, hlast,
    hended, ?_⟩
  rw [hcounted, hwalk]
  rfl

end Performance

end Typewriter

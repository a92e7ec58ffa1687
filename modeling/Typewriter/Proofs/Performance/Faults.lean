import Typewriter.Proofs.Performance.Course

/-!
# Faults

The only fault of a performance is a delay that is too long, and delays are counted in one place:
behind a character that is not the last of its line.  So the alarm of a line breaks a performance
off exactly if the next character is such a one, and walking on does exactly if it stops at a line
of two characters or more and the delay behind the first is too long.  There is one equivalence for
each function that can fail, from typing a character up to `apply`; `Breaks` puts them together.

The main statement is `error_iff_breaks`.  It also says that the script is never looked up outside
of its cues.
-/

namespace Typewriter

namespace Tempo

/-- The interval and the rest after a character are together too long for a duration. -/
def TooLong (tempo : Tempo) (c : Char) : Prop :=
  maxNanos < tempo.interval.nanos + (tempo.rests.after c).nanos

instance (tempo : Tempo) (c : Char) : Decidable (tempo.TooLong c) :=
  inferInstanceAs (Decidable (_ < _))

theorem delay?_eq_none_iff {tempo : Tempo} (hjitter : tempo.jitter.nanos < nanosPerMilli)
    (draw : Nat) (c : Char) : tempo.delay? draw c false = none ↔ tempo.TooLong c := by
  rw [delay?_of_jitter_lt hjitter]
  exact Duration.add?_eq_none_iff

/-- Without an interval no delay is too long, for a rest is a duration. -/
theorem not_tooLong_of_interval_eq_zero {tempo : Tempo} (hzero : tempo.interval = 0) (c : Char) :
    ¬ tempo.TooLong c := by
  unfold TooLong
  rw [hzero, Duration.nanos_zero, Nat.zero_add]
  exact Nat.not_lt.mpr (tempo.rests.after c).nanos_le

end Tempo

namespace Performance

variable {p : Performance} {line : String} {alarm : Alarm} {position : Nat} {fault : Fault}

/-- Typing the next character of a line breaks off: it is not the last one, and the delay behind it
is too long. -/
def BreaksTyping (p : Performance) (line : String) : Prop :=
  p.revealed + 1 < line.length ∧
    ∃ c, line.toList[p.revealed]? = some c ∧ p.setup.tempo.TooLong c

/-- Walking on from a position breaks off: the walk stops at a line of two characters or more, lines
are typed, and the delay behind the first character is too long. -/
def BreaksWalking (p : Performance) (position : Nat) : Prop :=
  ∃ at_ line c, (p.walkFrom position).stop = .line at_ ∧ p.script.lineAt? at_ = some line ∧
    2 ≤ line.length ∧ p.setup.tempo.interval ≠ 0 ∧ line.toList[0]? = some c ∧
    p.setup.tempo.TooLong c

/-- An operation breaks off. -/
def Breaks (p : Performance) : Operation → Prop
  | .advance => p.live = true ∧ p.phase = .shown ∧ p.BreaksWalking (p.cursor + 1)
  | .load script => (p.reload script).BreaksWalking 0
  | .ring alarm =>
      p.pending = some alarm ∧
        match alarm.purpose with
        | .typeNext _ => ∃ line, p.script.lineAt? p.cursor = some line ∧ p.BreaksTyping line
        | .walkOn position => p.BreaksWalking position

/-- Wherever an operation looks the script up, there is a cue of it: at the visits and the stop of a
walk from any position, at the cursor while the reader is heard before the end, and at the position
of the line whose next character is to be typed. -/
structure LooksInside (p : Performance) : Prop where
  visits : ∀ position, ∀ visit ∈ (p.walkFrom position).visits,
    p.script[visit.position]? = some visit.cue
  stop : ∀ position, (p.walkFrom position).stop.Within p.script position
  cursor : p.live = true → p.phase ≠ .ended → ∃ line, p.script.lineAt? p.cursor = some line
  alarm : ∀ alarm position, p.pending = some alarm → alarm.purpose = .typeNext position →
    ∃ line, p.script.lineAt? position = some line

/-! ## One function at a time -/

theorem typeNext_eq_error_iff (htake : p.shown.toList = line.toList.take p.revealed)
    (hjitter : p.setup.tempo.jitter.nanos < nanosPerMilli) :
    p.typeNext line position = .error fault ↔ p.BreaksTyping line := by
  by_cases hle : line.length ≤ p.revealed + 1
  · rw [typeNext_of_le hle]
    exact iff_of_false nofun fun hbreaks => absurd hbreaks.1 (Nat.not_lt.mpr hle)
  · have hlt : p.revealed + 1 < line.length := Nat.not_le.mp hle
    have hindex : p.revealed < line.toList.length := by
      rw [String.length_toList]
      omega
    have hc := List.getElem?_eq_getElem hindex
    have hnone := p.setup.tempo.delay?_eq_none_iff hjitter (p.setup.noise p.typed)
      line.toList[p.revealed]
    have hbreaks : p.BreaksTyping line ↔ p.setup.tempo.TooLong line.toList[p.revealed] := by
      unfold BreaksTyping
      rw [hc]
      simp [hlt]
    rw [typeNext_of_lt htake hlt hc, hbreaks, ← hnone]
    cases p.setup.tempo.delay? (p.setup.noise p.typed) line.toList[p.revealed] false with
    | none => exact iff_of_true (by cases fault; rfl) rfl
    | some delay => exact iff_of_false nofun nofun

theorem beginLine_eq_error_iff (hline : p.script.lineAt? position = some line)
    (hjitter : p.setup.tempo.jitter.nanos < nanosPerMilli) :
    p.beginLine position = .error fault ↔
      2 ≤ line.length ∧ p.setup.tempo.interval ≠ 0 ∧
        ∃ c, line.toList[0]? = some c ∧ p.setup.tempo.TooLong c := by
  unfold beginLine
  simp only [hline]
  cases hinstant : p.setup.tempo.isInstant with
  | true =>
      have hzero : p.setup.tempo.interval = 0 := of_decide_eq_true hinstant
      rw [if_pos rfl]
      exact iff_of_false nofun fun hbreaks => hbreaks.2.1 hzero
  | false =>
      have hanimated : p.setup.tempo.interval ≠ 0 := of_decide_eq_false hinstant
      let cleared := { p with cursor := position, shown := "", revealed := 0, phase := .typing }
      have hnext : cleared.typeNext line position = .error fault ↔ cleared.BreaksTyping line :=
        typeNext_eq_error_iff rfl hjitter
      rw [if_neg Bool.false_ne_true]
      refine hnext.trans ?_
      -- Nothing of the line is visible yet, so the next character is the first.
      show (0 + 1 < line.length ∧ ∃ c, line.toList[0]? = some c ∧ _) ↔ _
      rw [Nat.zero_add, Nat.lt_iff_add_one_le]
      exact and_congr_right fun _ => (and_iff_right hanimated).symm

theorem walkOn_eq_error_iff (hjitter : p.setup.tempo.jitter.nanos < nanosPerMilli) :
    p.walkOn position = .error fault ↔ p.BreaksWalking position := by
  have hwithin := p.script.walkFrom_stop_within p.setup.handler p.asked position
  rw [← walkFrom] at hwithin
  cases hstop : (p.walkFrom position).stop with
  | line at_ =>
      rw [hstop] at hwithin
      obtain ⟨-, line, hline⟩ := hwithin
      have hrecord : (p.record (p.walkFrom position) true).script.lineAt? at_ = some line := hline
      rw [walkOn_of_stop_line hstop, beginLine_eq_error_iff hrecord hjitter]
      constructor
      · rintro ⟨htwo, hanimated, c, hc, hlong⟩
        exact ⟨at_, line, c, hstop, hline, htwo, hanimated, hc, hlong⟩
      · rintro ⟨at', line', c, hstop', hline', htwo, hanimated, hc, hlong⟩
        -- A walk has one stop, and there is one line at it.
        obtain rfl : at_ = at' := Stop.line.inj (hstop.symm.trans hstop')
        obtain rfl : line = line' := Option.some.inj (hline.symm.trans hline')
        exact ⟨htwo, hanimated, c, hc, hlong⟩
  | pause length next =>
      rw [walkOn_of_stop_pause hstop]
      refine iff_of_false (by simp) ?_
      rintro ⟨_, _, _, hline, -⟩
      rw [hstop] at hline
      contradiction
  | ending =>
      rw [walkOn_of_stop_ending hstop]
      refine iff_of_false (by simp) ?_
      rintro ⟨_, _, _, hline, -⟩
      rw [hstop] at hline
      contradiction

/-! ## Operations -/

theorem Coherent.advance_eq_error_iff (hcoherent : p.Coherent)
    (hjitter : p.setup.tempo.jitter.nanos < nanosPerMilli) :
    p.advance = .error fault ↔ p.Breaks .advance := by
  cases hcoherent with
  | typing line alarm htyping =>
      rw [htyping.advance_eq]
      refine iff_of_false nofun fun ⟨_, hphase, _⟩ => ?_
      exact absurd (htyping.phase_eq.symm.trans hphase) (by decide)
  | shown line hshown =>
      rw [hshown.advance_eq, walkOn_eq_error_iff hjitter]
      exact ⟨fun hbreaks => ⟨hshown.live_eq, hshown.phase_eq, hbreaks⟩, fun hbreaks => hbreaks.2.2⟩
  | paused position alarm hpaused =>
      rw [hpaused.advance_eq]
      refine iff_of_false nofun fun ⟨hlive, _⟩ => ?_
      exact absurd (hpaused.live_eq.symm.trans hlive) (by decide)
  | ended hended =>
      rw [hended.advance_eq]
      refine iff_of_false nofun fun ⟨_, hphase, _⟩ => ?_
      exact absurd (hended.phase_eq.symm.trans hphase) (by decide)

theorem Typing.ring_eq_error_iff (htyping : p.Typing line alarm)
    (hjitter : p.setup.tempo.jitter.nanos < nanosPerMilli) :
    p.ring alarm = .error fault ↔ p.BreaksTyping line := by
  rw [htyping.ring_eq]
  exact typeNext_eq_error_iff htyping.typable_cancel.toList_shown hjitter

theorem Paused.ring_eq_error_iff (hpaused : p.Paused position alarm)
    (hjitter : p.setup.tempo.jitter.nanos < nanosPerMilli) :
    p.ring alarm = .error fault ↔ p.BreaksWalking (position + 1) := by
  rw [hpaused.ring_eq]
  exact walkOn_eq_error_iff hjitter

theorem Coherent.ring_eq_error_iff (hcoherent : p.Coherent)
    (hjitter : p.setup.tempo.jitter.nanos < nanosPerMilli) :
    p.ring alarm = .error fault ↔ p.Breaks (.ring alarm) := by
  simp only [Breaks]
  by_cases hpending : p.pending = some alarm
  · rcases hcoherent.typing_or_paused hpending with ⟨line, htyping⟩ | ⟨position, hpaused⟩
    · rw [htyping.ring_eq_error_iff hjitter, htyping.purpose_eq, htyping.lineAt?_eq]
      simp [hpending]
    · rw [hpaused.ring_eq_error_iff hjitter, hpaused.purpose_eq]
      simp [hpending]
  · rw [ring_of_ne hpending]
    exact iff_of_false nofun fun hbreaks => hpending hbreaks.1

/-- An operation breaks a performance off exactly if one of its delays is too long. -/
theorem Coherent.apply_eq_error_iff (hcoherent : p.Coherent)
    (hjitter : p.setup.tempo.jitter.nanos < nanosPerMilli) (operation : Operation) :
    p.apply operation = .error fault ↔ p.Breaks operation := by
  cases operation with
  | advance => exact hcoherent.advance_eq_error_iff hjitter
  | load script => exact walkOn_eq_error_iff hjitter
  | ring alarm => exact hcoherent.ring_eq_error_iff hjitter

theorem Breaks.exists_tooLong {operation : Operation} (hbreaks : p.Breaks operation) :
    ∃ c, p.setup.tempo.TooLong c := by
  have hwalking {q : Performance} {position : Nat} (hsetup : q.setup = p.setup)
      (hbreaks : q.BreaksWalking position) : ∃ c, p.setup.tempo.TooLong c := by
    obtain ⟨_, _, c, _, _, _, _, _, hlong⟩ := hbreaks
    exact ⟨c, hsetup ▸ hlong⟩
  cases operation with
  | advance => exact hwalking rfl hbreaks.2.2
  | load script => exact hwalking (q := p.reload script) rfl hbreaks
  | ring alarm =>
      obtain ⟨-, hbreaks⟩ := hbreaks
      cases hpurpose : alarm.purpose with
      | typeNext at_ =>
          rw [hpurpose] at hbreaks
          obtain ⟨_, _, _, c, _, hlong⟩ := hbreaks
          exact ⟨c, hlong⟩
      | walkOn next =>
          rw [hpurpose] at hbreaks
          exact hwalking rfl hbreaks

/-- Before the first walk neither the cursor nor an alarm is looked up. -/
theorem looksInside_of_fresh (hlive : p.live = false) (hpending : p.pending = none) :
    p.LooksInside where
  visits := p.script.getElem?_of_mem_visits p.setup.handler p.asked
  stop := p.script.walkFrom_stop_within p.setup.handler p.asked
  cursor hheard _ := absurd (hlive.symm.trans hheard) (by decide)
  alarm _ _ hsome _ := absurd (hpending.symm.trans hsome) nofun

theorem Coherent.looksInside (hcoherent : p.Coherent) : p.LooksInside := by
  refine ⟨p.script.getElem?_of_mem_visits p.setup.handler p.asked,
    p.script.walkFrom_stop_within p.setup.handler p.asked, ?_, ?_⟩
  · intro hlive hphase
    cases hcoherent with
    | typing line alarm htyping => exact ⟨line, htyping.lineAt?_eq⟩
    | shown line hshown => exact ⟨line, hshown.lineAt?_eq⟩
    | paused position alarm hpaused => exact absurd (hlive.symm.trans hpaused.live_eq) (by decide)
    | ended hended => exact absurd hended.phase_eq hphase
  · intro alarm position hpending hpurpose
    rcases hcoherent.typing_or_paused hpending with ⟨line, htyping⟩ | ⟨_, hpaused⟩
    · rw [htyping.purpose_eq, Purpose.typeNext.injEq] at hpurpose
      exact ⟨line, hpurpose ▸ htyping.lineAt?_eq⟩
    · rw [hpaused.purpose_eq] at hpurpose
      contradiction

/-- A start, and every operation on what became of one, breaks off exactly where a delay is too long
that has to be counted: behind the next character of the line that is being typed, unless it is the
last one, or behind the first character of a line of two or more at which a walk stops.  So without
an interval nothing breaks off.  The script is never looked up outside of its cues. -/
theorem error_iff_breaks {setup : Setup} (hjitter : setup.tempo.jitter.nanos < nanosPerMilli)
    (script : Script) (fault : Fault) :
    (start setup script = .error fault ↔ ({ setup, script } : Performance).BreaksWalking 0) ∧
      ({ setup, script } : Performance).LooksInside ∧
      ∀ {p₀ p : Performance} {operations : List Operation}, start setup script = .ok p₀ →
        p₀.run operations = .ok p →
        (∀ operation, p.apply operation = .error fault ↔ p.Breaks operation) ∧
          (setup.tempo.interval = 0 → ∀ operation, ∃ next, p.apply operation = .ok next) ∧
          p.LooksInside ∧ ∀ other, (p.reload other).LooksInside := by
  refine ⟨walkOn_eq_error_iff hjitter, looksInside_of_fresh rfl rfl, ?_⟩
  intro p₀ p operations hstart hrun
  have hcoherent : p.Coherent := coherent_of_run (coherent_of_start hstart) hrun
  obtain ⟨rfl, -, -⟩ := setup_script_edition_of_run hstart hrun
  refine ⟨hcoherent.apply_eq_error_iff hjitter, ?_, hcoherent.looksInside,
    fun other => looksInside_of_fresh rfl rfl⟩
  intro hzero operation
  cases happly : p.apply operation with
  | ok next => exact ⟨next, rfl⟩
  | error fault =>
      have hbreaks := (hcoherent.apply_eq_error_iff hjitter operation).mp happly
      obtain ⟨c, hlong⟩ := hbreaks.exists_tooLong
      exact absurd hlong (Tempo.not_tooLong_of_interval_eq_zero hzero c)

/-- A setup with a rest of the longest duration after each `b`. -/
def longestRestAfterB : Setup :=
  { tempo := { rests := ⟨[('b', ⟨maxNanos, Nat.le_refl _⟩)]⟩ } }

/-- The rest breaks off a line that begins with `b`, and a line with `b` in the middle when that is
to be typed.  An advance before it shows the line. -/
theorem error_iff_breaks_of_longest_rest :
    longestRestAfterB.tempo.jitter.nanos < nanosPerMilli ∧
      start longestRestAfterB [.line "ba"] = .error .delayTooLong ∧
      ∃ p, start longestRestAfterB [.line "abc"] = .ok p ∧ p.run [] = .ok p ∧
        p.apply (.ring ⟨0, 0, .ofMillis 50, .typeNext 0⟩) = .error .delayTooLong ∧
        p.apply .advance ≠ .error .delayTooLong := by
  have hjitter : longestRestAfterB.tempo.jitter.nanos < nanosPerMilli := by decide
  have hanimated : longestRestAfterB.tempo.interval ≠ 0 := by decide
  have hlong : longestRestAfterB.tempo.TooLong 'b' := by decide
  have hbegun : ∃ p, start longestRestAfterB [.line "abc"] = .ok p ∧
      p.setup = longestRestAfterB ∧ p.phase = .typing ∧ p.revealed = 1 ∧
      p.pending = some ⟨0, 0, .ofMillis 50, .typeNext 0⟩ ∧
      p.script.lineAt? p.cursor = some "abc" :=
    ⟨_, rfl, rfl, rfl, rfl, rfl, rfl⟩
  obtain ⟨p, hstart, hsetup, hphase, hrevealed, hpending, hline⟩ := hbegun
  have hrun : p.run [] = .ok p := rfl
  obtain ⟨hbreaks, -⟩ := (error_iff_breaks hjitter [.line "abc"] .delayTooLong).2.2 hstart hrun
  refine ⟨hjitter, ?_, p, hstart, hrun, ?_, ?_⟩
  · refine (error_iff_breaks hjitter [.line "ba"] .delayTooLong).1.mpr ?_
    exact ⟨0, "ba", 'b', rfl, rfl, by decide, hanimated, rfl, hlong⟩
  · refine (hbreaks _).mpr ⟨hpending, "abc", hline, ?_⟩
    unfold BreaksTyping
    rw [hrevealed, hsetup]
    exact ⟨by decide, 'b', rfl, hlong⟩
  · rw [Ne, hbreaks]
    exact fun hadvance => absurd (hphase.symm.trans hadvance.2.1) (by decide)

end Performance

end Typewriter

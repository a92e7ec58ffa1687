import Mathlib.Algebra.GroupWithZero.Nat
import Typewriter.Proofs.Performance.Draining

/-!
# Strokes

A line is typed by strokes.  The first character is visible at once, and each alarm shows one more;
the last stroke shows the line in full and leaves no alarm.  Between two strokes the typewriter
waits for the time that the character typed last earns, so the last character of a line earns
nothing.

`Struck` says where a line stands after so many alarms, `Typable.exists_typeNext` that typing leads
from one such place to the next, and the main statement is `typed_by_strokes`.
-/

namespace Typewriter

namespace Tempo

/-- The nanoseconds of an interval and the rest after a character. -/
def strokeNanos (tempo : Tempo) (c : Char) : Nat :=
  tempo.interval.nanos + (tempo.rests.after c).nanos

theorem exists_delay? {tempo : Tempo} {c : Char} (hjitter : tempo.jitter.nanos < nanosPerMilli)
    (hfits : tempo.strokeNanos c ≤ maxNanos) (draw : Nat) :
    ∃ delay, tempo.delay? draw c false = some delay ∧ delay.nanos = tempo.strokeNanos c :=
  ⟨⟨tempo.strokeNanos c, hfits⟩,
    (delay?_of_jitter_lt hjitter draw c).trans (Duration.add?_eq_some_iff.mpr rfl), rfl⟩

/-- The time of some strokes: an interval for each of them, and all their rests. -/
theorem sum_strokeNanos (tempo : Tempo) (cs : List Char) :
    (cs.map tempo.strokeNanos).sum =
      cs.length * tempo.interval.nanos + (cs.map fun c => (tempo.rests.after c).nanos).sum := by
  induction cs with
  | nil => simp
  | cons c cs ih =>
      simp only [List.map_cons, List.sum_cons, List.length_cons, ih, strokeNanos, Nat.add_mul]
      omega

end Tempo

namespace Performance

/-- Where a line stands after so many alarms: one character more than these is visible, and the
pending alarm waits for what that character earns, or the line is shown in full. -/
inductive Struck (p : Performance) (line : String) (count : Nat) : Prop where
  | typing (alarm : Alarm) (c : Char) (mode : p.Typing line alarm)
      (revealed_eq : p.revealed = count + 1) (getElem?_eq : line.toList[count]? = some c)
      (nanos_eq : alarm.delay.nanos = p.setup.tempo.strokeNanos c)
  | shown (le : line.length ≤ count + 1) (mode : p.Shown line)

variable {p q : Performance} {line : String} {count : Nat}

theorem Struck.toList_shown (hstruck : p.Struck line count) :
    p.shown.toList = line.toList.take (count + 1) := by
  cases hstruck with
  | typing alarm c htyping hrevealed _ _ => rw [htyping.toList_shown, hrevealed]
  | shown hle hshown =>
      rw [hshown.shown_eq, List.take_of_length_le]
      rw [String.length_toList]
      exact hle

/-- What is left for the alarms: all characters but the last are followed by another stroke. -/
theorem drop_dropLast_eq_cons {cs : List Char} {c : Char} (hlt : count + 1 < cs.length)
    (hc : cs[count]? = some c) : cs.dropLast.drop count = c :: cs.dropLast.drop (count + 1) := by
  have hdropLast : cs.dropLast[count]? = some c := by
    rw [List.getElem?_dropLast, if_pos (by omega), hc]
  obtain ⟨hindex, hget⟩ := List.getElem?_eq_some_iff.mp hdropLast
  rw [List.drop_eq_getElem_cons hindex, hget]

/-- Typing leads on by one stroke, unless the delay after the next character is too long. -/
theorem Typable.exists_typeNext (htypable : p.Typable line) (hrevealed : p.revealed = count)
    (hjitter : p.setup.tempo.jitter.nanos < nanosPerMilli)
    (hfits : ∀ c ∈ line.toList.dropLast, p.setup.tempo.strokeNanos c ≤ maxNanos) :
    ∃ q, p.typeNext line p.cursor = .ok q ∧ q.Struck line count ∧ q.setup = p.setup ∧
      q.cursor = p.cursor := by
  by_cases hle : line.length ≤ count + 1
  · refine ⟨p.showWhole line, typeNext_of_le (hrevealed ▸ hle) p.cursor, .shown hle ?_, rfl, rfl⟩
    exact shown_showWhole htypable.live_eq htypable.lineAt?_eq
  · have hlt : count + 1 < line.toList.length := by
      rw [String.length_toList]
      omega
    have hc := List.getElem?_eq_getElem (Nat.lt_of_succ_lt hlt)
    have hmem : line.toList[count] ∈ line.toList.dropLast := by
      refine List.mem_of_mem_drop (i := count) ?_
      rw [drop_dropLast_eq_cons hlt hc]
      exact List.mem_cons_self
    obtain ⟨delay, hdelay, hnanos⟩ :=
      Tempo.exists_delay? hjitter (hfits _ hmem) (p.setup.noise p.typed)
    subst hrevealed
    rw [String.length_toList] at hlt
    have hnext := typeNext_of_lt htypable.toList_shown hlt hc p.cursor
    rw [hdelay] at hnext
    refine ⟨_, hnext, ?_, rfl, rfl⟩
    cases htypable.onStage (typed_of_typeNext htypable.toList_shown hnext) with
    | shown hshown =>
        -- The next alarm is pending, so the line is not shown in full.
        have hpending := hshown.pending_eq
        contradiction
    | typing alarm htyping =>
        obtain rfl := Option.some.inj htyping.pending_eq
        exact .typing _ _ htyping rfl hc hnanos

/-- The pending alarm makes one stroke. -/
theorem Typing.exists_ring {alarm : Alarm} (htyping : p.Typing line alarm)
    (hrevealed : p.revealed = count + 1) (hjitter : p.setup.tempo.jitter.nanos < nanosPerMilli)
    (hfits : ∀ c ∈ line.toList.dropLast, p.setup.tempo.strokeNanos c ≤ maxNanos) :
    ∃ q, p.ring alarm = .ok q ∧ q.Struck line (count + 1) ∧ q.setup = p.setup ∧
      q.cursor = p.cursor := by
  rw [htyping.ring_eq]
  exact htyping.typable_cancel.exists_typeNext hrevealed hjitter hfits

/-- Alarms make one stroke each, as long as there are any.  Each of them waits for what the next of
the characters earns, and the last character is left out. -/
theorem Struck.exists_drain (hstruck : p.Struck line count)
    (hjitter : p.setup.tempo.jitter.nanos < nanosPerMilli)
    (hfits : ∀ c ∈ line.toList.dropLast, p.setup.tempo.strokeNanos c ≤ maxNanos) (limit : Nat) :
    ∃ q alarms, p.drain limit = .ok (q, alarms) ∧ q.Struck line (count + limit) ∧
      q.cursor = p.cursor ∧ (∀ alarm ∈ alarms, alarm.purpose = .typeNext p.cursor) ∧
      alarms.map (fun alarm => alarm.delay.nanos) =
        ((line.toList.dropLast.drop count).take limit).map p.setup.tempo.strokeNanos := by
  induction limit generalizing p count with
  | zero => exact ⟨p, [], drain_zero p, hstruck, rfl, by simp, by simp⟩
  | succ limit ih =>
      cases hstruck with
      | shown hle hshown =>
          have hlast : line.toList.dropLast.drop count = [] := by
            rw [List.drop_eq_nil_iff, List.length_dropLast, String.length_toList]
            omega
          refine ⟨p, [], drain_of_pending_eq_none hshown.pending_eq _, .shown (by omega) hshown,
            rfl, by simp, ?_⟩
          rw [hlast, List.take_nil, List.map_nil, List.map_nil]
      | typing alarm c htyping hrevealed hc hnanos =>
          obtain ⟨next, hring, hnext, hsetup, hcursor⟩ :=
            htyping.exists_ring hrevealed hjitter hfits
          rw [← hsetup] at hjitter hfits
          obtain ⟨q, alarms, hdrain, hstruck, hsame, hpurpose, hdelays⟩ := ih hnext hjitter hfits
          refine ⟨q, alarm :: alarms, ?_, ?_, hsame.trans hcursor, ?_, ?_⟩
          · unfold drain
            simp only [htyping.pending_eq, hring, hdrain]
          · rwa [Nat.add_right_comm, Nat.add_assoc] at hstruck
          · intro other hother
            rcases List.mem_cons.mp hother with rfl | hother
            · exact htyping.purpose_eq
            · rw [hpurpose other hother, hcursor]
          · have hlt : count + 1 < line.toList.length := by
              rw [String.length_toList, ← hrevealed]
              exact htyping.revealed_lt
            rw [drop_dropLast_eq_cons hlt hc, List.take_succ_cons, List.map_cons, List.map_cons,
              hdelays, hsetup, hnanos]

/-! ## A line from its first stroke to its last -/

/-- A line that a walk stops at is begun with its first stroke. -/
theorem exists_walkOn_struck {position at_ : Nat} (hanimated : p.setup.tempo.interval ≠ 0)
    (hjitter : p.setup.tempo.jitter.nanos < nanosPerMilli)
    (hstop : (p.walkFrom position).stop = .line at_) (hline : p.script.lineAt? at_ = some line)
    (hfits : ∀ c ∈ line.toList.dropLast, p.setup.tempo.strokeNanos c ≤ maxNanos) :
    ∃ q, p.walkOn position = .ok q ∧ q.Struck line 0 ∧ q.setup = p.setup ∧ q.cursor = at_ := by
  have hinstant : p.setup.tempo.isInstant = false := decide_eq_false hanimated
  have htypable : Typable { p.record (p.walkFrom position) true with
      cursor := at_, shown := "", revealed := 0, phase := .typing } line :=
    ⟨rfl, rfl, hline, rfl, hinstant⟩
  obtain ⟨q, hnext, hstruck, hsetup, hcursor⟩ := htypable.exists_typeNext rfl hjitter hfits
  refine ⟨q, ?_, hstruck, hsetup, hcursor⟩
  have hrecorded : (p.record (p.walkFrom position) true).script.lineAt? at_ = some line := hline
  have hinstant' : (p.record (p.walkFrom position) true).setup.tempo.isInstant = false := hinstant
  rw [walkOn_of_stop_line hstop]
  unfold beginLine
  simp only [hrecorded, hinstant', Bool.false_eq_true, if_false]
  exact hnext

/-- A line that a walk stops at is typed by exactly one alarm less than it has characters.  After so
many of them one character more is visible, and it is being typed as long as this is not the whole
line; then it is shown in full and no alarm is pending.  Each alarm waits for an interval and the
rest after the character typed last, so the rest after the last character of the line is left out,
and in all there are as many intervals as there are alarms, and the rests after all characters but
the last. -/
theorem typed_by_strokes {p : Performance} {position at_ : Nat} {line : String}
    (hanimated : p.setup.tempo.interval ≠ 0)
    (hjitter : p.setup.tempo.jitter.nanos < nanosPerMilli)
    (hstop : (p.walkFrom position).stop = .line at_) (hline : p.script.lineAt? at_ = some line)
    (hfits : ∀ c ∈ line.toList.dropLast,
      p.setup.tempo.interval.nanos + (p.setup.tempo.rests.after c).nanos ≤ maxNanos) :
    ∃ q, p.walkOn position = .ok q ∧ ∀ count, ∃ r alarms, q.drain count = .ok (r, alarms) ∧
      r.cursor = at_ ∧ r.shown.toList = line.toList.take (count + 1) ∧
      alarms.length = min count (line.length - 1) ∧
      (∀ alarm ∈ alarms, alarm.purpose = .typeNext at_) ∧
      alarms.map (fun alarm => alarm.delay.nanos) = (line.toList.dropLast.take count).map
        (fun c => p.setup.tempo.interval.nanos + (p.setup.tempo.rests.after c).nanos) ∧
      (count + 1 < line.length → r.phase = .typing ∧ ∃ alarm, r.pending = some alarm ∧
        alarm.purpose = .typeNext at_) ∧
      (line.length ≤ count + 1 → r.phase = .shown ∧ r.pending = none ∧
        (alarms.map fun alarm => alarm.delay.nanos).sum =
          (line.length - 1) * p.setup.tempo.interval.nanos +
            (line.toList.dropLast.map fun c => (p.setup.tempo.rests.after c).nanos).sum) := by
  obtain ⟨q, hwalk, hbegun, hsetup, hcursor⟩ :=
    exists_walkOn_struck hanimated hjitter hstop hline hfits
  refine ⟨q, hwalk, fun count => ?_⟩
  rw [← hsetup] at hjitter hfits
  obtain ⟨r, alarms, hdrain, hstruck, hsame, hpurpose, hdelays⟩ :=
    hbegun.exists_drain hjitter hfits count
  rw [Nat.zero_add] at hstruck
  rw [List.drop_zero, hsetup] at hdelays
  rw [hcursor] at hpurpose
  have hlength : line.toList.dropLast.length = line.length - 1 := by
    rw [List.length_dropLast, String.length_toList]
  refine ⟨r, alarms, hdrain, hsame.trans hcursor, hstruck.toList_shown, ?_, hpurpose, hdelays,
    ?_, ?_⟩
  · have hcount := congrArg List.length hdelays
    rwa [List.length_map, List.length_map, List.length_take, hlength] at hcount
  · intro hlt
    cases hstruck with
    | typing alarm c htyping _ _ _ =>
        refine ⟨htyping.phase_eq, alarm, htyping.pending_eq, ?_⟩
        rw [htyping.purpose_eq, hsame, hcursor]
    | shown hle _ => omega
  · intro hle
    cases hstruck with
    | typing alarm c htyping hrevealed _ _ =>
        have hlt := htyping.revealed_lt
        omega
    | shown _ hshown =>
        refine ⟨hshown.phase_eq, hshown.pending_eq, ?_⟩
        rw [hdelays, List.take_of_length_le (by rw [hlength]; omega)]
        have hsum := p.setup.tempo.sum_strokeNanos line.toList.dropLast
        rwa [hlength] at hsum

/-- Both full stops would earn a rest, but there is no stroke behind the second. -/
theorem typed_by_strokes_of_full_stops :
    ∃ setup : Setup, setup.tempo.interval ≠ 0 ∧ setup.tempo.jitter.nanos < nanosPerMilli ∧
      (∀ c ∈ "é..".toList.dropLast,
        setup.tempo.interval.nanos + (setup.tempo.rests.after c).nanos ≤ maxNanos) ∧
      ∃ q, start setup [.effect "bell", .line "é.."] = .ok q ∧
        ∃ r alarms, q.drain 9 = .ok (r, alarms) ∧ r.phase = .shown ∧ r.pending = none ∧
          r.shown.toList = "é..".toList ∧
          alarms.map (fun alarm => alarm.delay.nanos) = [50000000, 57000000] := by
  let setup : Setup := { tempo := { rests := ⟨[('.', .ofMillis 7)]⟩ } }
  let opening : Performance := { setup, script := [.effect "bell", .line "é.."] }
  have hanimated : opening.setup.tempo.interval ≠ 0 := by decide
  have hjitter : opening.setup.tempo.jitter.nanos < nanosPerMilli := by decide
  have hstop : (opening.walkFrom 0).stop = .line 1 := by rfl
  have hline : opening.script.lineAt? 1 = some "é.." := by rfl
  have hfits : ∀ c ∈ "é..".toList.dropLast,
      opening.setup.tempo.interval.nanos + (opening.setup.tempo.rests.after c).nanos ≤
        maxNanos := by
    simp [opening, setup, Rests.after, Rests.get?, nanosPerMilli, nanosPerSecond, maxNanos,
      UInt64.size]
  have hexpected : ("é..".toList.dropLast.take 9).map (fun c =>
      opening.setup.tempo.interval.nanos + (opening.setup.tempo.rests.after c).nanos) =
      [50000000, 57000000] := by
    simp [opening, setup, Rests.after, Rests.get?, nanosPerMilli]
  obtain ⟨q, hwalk, hdrains⟩ := typed_by_strokes hanimated hjitter hstop hline hfits
  obtain ⟨r, alarms, hdrain, -, hshown, -, -, hdelays, -, hlast⟩ := hdrains 9
  obtain ⟨hphase, hpending, -⟩ := hlast (by decide)
  exact ⟨setup, hanimated, hjitter, hfits, q, hwalk, r, alarms, hdrain, hphase, hpending, hshown,
    hdelays.trans hexpected⟩

end Performance

end Typewriter

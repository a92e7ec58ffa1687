import Mathlib.Order.Bounds.Basic
import Typewriter.Proofs.Performance.Strokes
import Typewriter.Proofs.Playback.Interruptions

/-!
# Strokes on a clock

On a clock, each stroke on a line is made when the wait is over that the character before it earns,
and that wait is counted from the stroke before.  So the time of a stroke is a sum of waits, and how
many strokes were made after some time depends on nothing but the waits (`waitsOver`).

`AtStroke` says that a stroke was made at the present time, and `AtStroke.stroke` how one leads to
the next.  The main statements are `AtStroke.struck_of_runUntil`, where a line stands after some
time, and `AtStroke.exists_runUntil`, that the clock gets there.
-/

namespace Typewriter

/-! ## Waits one after the other -/

/-- How many waits are over after some time, if each begins where the one before it ends. -/
def waitsOver : (waits : List Nat) → (time : Nat) → Nat
  | [], _ => 0
  | wait :: waits, time => if wait ≤ time then waitsOver waits (time - wait) + 1 else 0

theorem isGreatest_waitsOver (waits : List Nat) (time : Nat) :
    IsGreatest {count | count ≤ waits.length ∧ (waits.take count).sum ≤ time}
      (waitsOver waits time) := by
  induction waits generalizing time with
  | nil =>
      refine ⟨⟨Nat.le_refl _, Nat.zero_le _⟩, ?_⟩
      rintro count ⟨hcount, -⟩
      exact hcount
  | cons wait waits ih =>
      unfold waitsOver
      split
      case isTrue hle =>
        obtain ⟨⟨hlength, hsum⟩, hgreatest⟩ := ih (time - wait)
        refine ⟨⟨Nat.succ_le_succ hlength, ?_⟩, ?_⟩
        · rw [List.take_succ_cons, List.sum_cons]
          omega
        · rintro count ⟨hcount, hover⟩
          cases count with
          | zero => exact Nat.zero_le _
          | succ count =>
              rw [List.take_succ_cons, List.sum_cons] at hover
              exact Nat.succ_le_succ (hgreatest ⟨Nat.le_of_succ_le_succ hcount, by omega⟩)
      case isFalse hlt =>
        -- Without the first wait none of the others is over.
        refine ⟨⟨Nat.zero_le _, Nat.zero_le _⟩, ?_⟩
        rintro count ⟨-, hover⟩
        cases count with
        | zero => exact Nat.le_refl _
        | succ count =>
            rw [List.take_succ_cons, List.sum_cons] at hover
            omega

theorem monotone_waitsOver (waits : List Nat) : Monotone (waitsOver waits) := by
  intro time later hle
  obtain ⟨⟨hlength, hsum⟩, -⟩ := isGreatest_waitsOver waits time
  exact (isGreatest_waitsOver waits later).2 ⟨hlength, Nat.le_trans hsum hle⟩

namespace Tempo

/-- The milliseconds of an interval and the rest after a character, rounded up. -/
def strokeMillis (tempo : Tempo) (c : Char) : Nat :=
  (tempo.strokeNanos c + (nanosPerMilli - 1)) / nanosPerMilli

/-- How many strokes behind the first were made on a line after so many milliseconds. -/
def strokesBy (tempo : Tempo) (line : String) (millis : Nat) : Nat :=
  waitsOver (line.toList.dropLast.map tempo.strokeMillis) millis

theorem strokeNanos_le (tempo : Tempo) (c : Char) :
    tempo.strokeNanos c ≤ tempo.strokeMillis c * nanosPerMilli := by
  simp only [strokeMillis, nanosPerMilli]
  omega

theorem strokeMillis_mul {tempo : Tempo} {c : Char} (hwhole : nanosPerMilli ∣ tempo.strokeNanos c) :
    tempo.strokeMillis c * nanosPerMilli = tempo.strokeNanos c := by
  obtain ⟨millis, hmillis⟩ := hwhole
  rw [strokeMillis, hmillis]
  simp only [nanosPerMilli]
  omega

theorem sum_strokeMillis_mul {tempo : Tempo} {cs : List Char}
    (hwhole : ∀ c ∈ cs, nanosPerMilli ∣ tempo.strokeNanos c) :
    (cs.map tempo.strokeMillis).sum * nanosPerMilli = (cs.map tempo.strokeNanos).sum := by
  induction cs with
  | nil => simp
  | cons c cs ih =>
      obtain ⟨hc, hcs⟩ := List.forall_mem_cons.mp hwhole
      rw [List.map_cons, List.map_cons, List.sum_cons, List.sum_cons, Nat.add_mul,
        strokeMillis_mul hc, ih hcs]

/-- The strokes after some time are those whose waits, rounded up, fit in. -/
theorem isGreatest_strokesBy (tempo : Tempo) (line : String) (millis : Nat) :
    IsGreatest {count | count ≤ line.length - 1 ∧
      ((line.toList.take count).map tempo.strokeMillis).sum ≤ millis}
      (tempo.strokesBy line millis) := by
  have hset : {count | count ≤ line.length - 1 ∧
        ((line.toList.take count).map tempo.strokeMillis).sum ≤ millis} =
      {count | count ≤ (line.toList.dropLast.map tempo.strokeMillis).length ∧
        ((line.toList.dropLast.map tempo.strokeMillis).take count).sum ≤ millis} := by
    have hlength : (line.toList.dropLast.map tempo.strokeMillis).length = line.length - 1 := by
      rw [List.length_map, List.length_dropLast, String.length_toList]
    rw [hlength]
    refine Set.ext fun count => and_congr_right fun hcount => ?_
    have htake : line.toList.dropLast.take count = line.toList.take count := by
      rw [List.dropLast_eq_take, List.take_take, String.length_toList, Nat.min_eq_left hcount]
    rw [← List.map_take, htake]
  rw [hset]
  exact isGreatest_waitsOver _ millis

/-- Whole milliseconds need not be rounded. -/
theorem isGreatest_strokesBy_of_whole {tempo : Tempo} {line : String}
    (hwhole : ∀ c ∈ line.toList, nanosPerMilli ∣ tempo.strokeNanos c) (millis : Nat) :
    IsGreatest {count | count ≤ line.length - 1 ∧
      ((line.toList.take count).map tempo.strokeNanos).sum ≤ millis * nanosPerMilli}
      (tempo.strokesBy line millis) := by
  have hset : {count | count ≤ line.length - 1 ∧
        ((line.toList.take count).map tempo.strokeNanos).sum ≤ millis * nanosPerMilli} =
      {count | count ≤ line.length - 1 ∧
        ((line.toList.take count).map tempo.strokeMillis).sum ≤ millis} := by
    refine Set.ext fun count => and_congr_right fun _ => ?_
    rw [← sum_strokeMillis_mul fun c hc => hwhole c (List.mem_of_mem_take hc)]
    exact Nat.mul_le_mul_right_iff (by decide)
  rw [hset]
  exact tempo.isGreatest_strokesBy line millis

end Tempo

namespace Performance

variable {p q : Performance} {line : String} {alarm : Alarm} {count : Nat}

/-- A line that is being typed has come to the stroke that its visible characters count. -/
theorem Typing.struck (htyping : p.Typing line alarm)
    (hjitter : p.setup.tempo.jitter.nanos < nanosPerMilli) (hrevealed : p.revealed = count + 1) :
    p.Struck line count := by
  obtain ⟨c, hlast, hallows⟩ := htyping.allows
  have hlt : count < line.toList.length := by
    have hrevealed_lt := htyping.revealed_lt
    rw [String.length_toList]
    omega
  have hc : line.toList[count]? = some c := by
    rw [htyping.toList_shown, hrevealed, List.getLast?_take, if_neg (Nat.succ_ne_zero count),
      Nat.add_sub_cancel, List.getElem?_eq_getElem hlt, Option.some_or] at hlast
    rw [List.getElem?_eq_getElem hlt, hlast]
  exact .typing alarm c htyping hrevealed hc (hallows.nanos_eq hjitter)

/-- The pending alarm makes the next stroke. -/
theorem Typing.struck_of_ring (htyping : p.Typing line alarm)
    (hjitter : p.setup.tempo.jitter.nanos < nanosPerMilli) (hrevealed : p.revealed = count + 1)
    (hring : p.ring alarm = .ok q) : q.Struck line (count + 1) ∧ q.setup = p.setup := by
  rw [htyping.ring_eq] at hring
  have htyped : Typed p.cancel line p.cursor q := typed_of_typeNext htyping.toList_shown hring
  have hsetup : q.setup = p.setup := htyped.sameRecord.setup_eq
  refine ⟨?_, hsetup⟩
  cases htyping.onStage_of_typed htyped with
  | typing alarm' htyping' =>
      have hmore : q.revealed = p.revealed + 1 := htyped.revealed_eq htyping'.phase_eq
      exact htyping'.struck (hsetup ▸ hjitter) (by omega)
  | shown hshown =>
      cases htyped with
      | whole hle _ =>
          have hle' : line.length ≤ p.revealed + 1 := hle
          exact .shown (by omega) hshown
      | char _ _ _ _ _ heq =>
          rw [heq] at hshown
          exact absurd hshown.pending_eq nofun

end Performance

namespace Playback

open Performance

variable {b next : Playback} {armed : Armed} {time count : Nat} {line : String}

/-! ## From stroke to stroke -/

/-- A stroke was made on a line at the present time, so many behind the first. -/
structure AtStroke (b : Playback) (line : String) (count : Nat) : Prop extends Attentive b where
  struck : b.performance.Struck line count
  deadline_eq : ∀ armed, b.armed = some armed →
    armed.deadline = b.now * nanosPerMilli + armed.alarm.delay.nanos

/-- Behind a stroke, either none is left and nothing is armed, or the next one is made when the wait
for it is over, and the wait for the one after it is counted from there. -/
theorem AtStroke.stroke (hat : b.AtStroke line count)
    (hjitter : b.performance.setup.tempo.jitter.nanos < nanosPerMilli) :
    (line.toList.dropLast.drop count = [] ∧ b.armed = none) ∨
      ∃ c armed, line.toList.dropLast.drop count = c :: line.toList.dropLast.drop (count + 1) ∧
        b.armed = some armed ∧
        armed.due = b.now + b.performance.setup.tempo.strokeMillis c ∧
        ∀ next, b.ringAt armed.due armed = .ok next → next.AtStroke line (count + 1) ∧
          next.now = armed.due ∧ next.performance.setup = b.performance.setup := by
  cases hat.struck with
  | shown hle hshown =>
      refine .inl ⟨?_, ?_⟩
      · rw [List.drop_eq_nil_iff, List.length_dropLast, String.length_toList]
        omega
      · rw [← Option.map_eq_none_iff, hat.armed_eq, hshown.pending_eq]
  | typing alarm c htyping hrevealed hc hnanos =>
      obtain ⟨armed, harmed, rfl⟩ :=
        Option.map_eq_some_iff.mp (hat.armed_eq.trans htyping.pending_eq)
      have hlt : count + 1 < line.toList.length := by
        rw [String.length_toList, ← hrevealed]
        exact htyping.revealed_lt
      refine .inr ⟨c, armed, drop_dropLast_eq_cons hlt hc, harmed, ?_, fun next hnext => ?_⟩
      · have hdeadline := hat.deadline_eq armed harmed
        rw [hnanos] at hdeadline
        rw [Armed.due, Tempo.strokeMillis, hdeadline]
        simp only [nanosPerMilli]
        omega
      · obtain ⟨hattentive, hnow, hring, -⟩ := hat.ringAt harmed hnext
        obtain ⟨hstruck, hsetup⟩ := htyping.struck_of_ring hjitter hrevealed hring
        refine ⟨⟨hattentive, hstruck, fun later hlater => ?_⟩, hnow, hsetup⟩
        rw [hnow]
        exact armed_of_ringAt hnext hlater

/-- As long as nobody asks for anything, the strokes are made whose waits are over. -/
theorem AtStroke.struck_of_runUntil (hat : b.AtStroke line count)
    (hjitter : b.performance.setup.tempo.jitter.nanos < nanosPerMilli) (hle : b.now ≤ time)
    (hnext : b.runUntil time = .ok next) :
    next.performance.Struck line (count + waitsOver
        ((line.toList.dropLast.drop count).map b.performance.setup.tempo.strokeMillis)
        (time - b.now)) ∧
      next.performance.setup = b.performance.setup := by
  -- The induction is on the characters that earn another stroke.
  induction hrest : line.toList.dropLast.drop count generalizing b count with
  | nil =>
      rcases hat.stroke hjitter with ⟨-, hnone⟩ | ⟨_, _, hcons, -⟩
      · rw [(idle_of_armed_eq_none hnone time).runUntil_eq] at hnext
        rw [← Except.ok.inj hnext]
        exact ⟨hat.struck, rfl⟩
      · exact absurd (hcons.symm.trans hrest) (List.cons_ne_nil _ _)
  | cons c rest ih =>
      rcases hat.stroke hjitter with ⟨hnil, -⟩ | ⟨c', armed, hcons, harmed, hdue, hstroke⟩
      · exact absurd (hrest.symm.trans hnil) (List.cons_ne_nil _ _)
      · obtain ⟨rfl, hrest'⟩ := List.cons.inj (hrest.symm.trans hcons)
        rw [List.map_cons, waitsOver]
        by_cases hover : b.performance.setup.tempo.strokeMillis c ≤ time - b.now
        · rw [hat.runUntil_eq harmed (by omega), Nat.max_eq_right (by omega)] at hnext
          obtain ⟨rung, hring, hnext⟩ := bind_eq_ok hnext
          obtain ⟨hat', hnow, hsetup⟩ := hstroke rung hring
          have hleft : time - rung.now =
              time - b.now - b.performance.setup.tempo.strokeMillis c := by omega
          obtain ⟨hstruck, hlast⟩ := ih hat' (hsetup ▸ hjitter) (by omega) hnext hrest'.symm
          rw [hsetup, hleft, Nat.add_right_comm] at hstruck
          rw [if_pos hover]
          exact ⟨hstruck, hlast.trans hsetup⟩
        · have hlt : time < armed.due := by omega
          rw [(idle_of_lt_due harmed hlt).runUntil_eq] at hnext
          rw [← Except.ok.inj hnext, if_neg hover]
          exact ⟨hat.struck, rfl⟩

/-! ## The clock does not come to its end -/

theorem exists_arm (hclock : ∀ alarm, b.performance.pending = some alarm →
    alarm.delay.ArmableAt b.clock) : ∃ next, b.arm = .ok next := by
  unfold arm
  cases hpending : b.performance.pending with
  | none => exact ⟨_, rfl⟩
  | some alarm =>
      dsimp only
      split
      · exact ⟨_, rfl⟩
      · exact ⟨_, if_pos (hclock alarm hpending)⟩

theorem AtStroke.exists_ringAt (hat : b.AtStroke line count) (harmed : b.armed = some armed)
    (hjitter : b.performance.setup.tempo.jitter.nanos < nanosPerMilli)
    (hfits : ∀ c ∈ line.toList.dropLast, b.performance.setup.tempo.strokeNanos c ≤ maxNanos)
    (hclock : ∀ c rest, line.toList.dropLast.drop (count + 1) = c :: rest →
      b.origin + time * nanosPerMilli + b.performance.setup.tempo.strokeNanos c < clockEnd) :
    ∃ next, b.ringAt time armed = .ok next := by
  cases hat.struck with
  | shown _ hshown =>
      have hpending := hat.pending_eq harmed
      rw [hshown.pending_eq] at hpending
      contradiction
  | typing alarm c htyping hrevealed hc hnanos =>
      obtain rfl : alarm = armed.alarm :=
        Option.some.inj (htyping.pending_eq.symm.trans (hat.pending_eq harmed))
      obtain ⟨p, hring, hstruck, hsetup, -⟩ := htyping.exists_ring hrevealed hjitter hfits
      have hperformance := (publish_eq { b with now := time, armed := none, performance := p }).1
      rw [ringAt, hring]
      refine exists_arm fun later hlater => ?_
      rw [hperformance] at hlater
      rw [clock_publish, clock, Duration.ArmableAt]
      cases hstruck with
      | shown _ hshown =>
          rw [hshown.pending_eq] at hlater
          contradiction
      | typing alarm' c' htyping' hrevealed' hc' hnanos' =>
          obtain rfl : later = alarm' := Option.some.inj (hlater.symm.trans htyping'.pending_eq)
          have hlt : count + 1 + 1 < line.toList.length := by
            rw [String.length_toList, ← hrevealed']
            exact htyping'.revealed_lt
          rw [hnanos', hsetup]
          exact hclock c' _ (drop_dropLast_eq_cons hlt hc')

/-- If all delays of the line fit into durations, and its last deadline comes before the end of the
clock, the clock can run on. -/
theorem AtStroke.exists_runUntil (hat : b.AtStroke line count)
    (hjitter : b.performance.setup.tempo.jitter.nanos < nanosPerMilli)
    (hfits : ∀ c ∈ line.toList.dropLast, b.performance.setup.tempo.strokeNanos c ≤ maxNanos)
    (hclock : b.origin + (b.now + ((line.toList.dropLast.drop count).map
      b.performance.setup.tempo.strokeMillis).sum) * nanosPerMilli < clockEnd)
    (hle : b.now ≤ time) : ∃ next, b.runUntil time = .ok next := by
  induction hrest : line.toList.dropLast.drop count generalizing b count with
  | nil =>
      rcases hat.stroke hjitter with ⟨-, hnone⟩ | ⟨_, _, hcons, -⟩
      · exact ⟨_, (idle_of_armed_eq_none hnone time).runUntil_eq⟩
      · exact absurd (hcons.symm.trans hrest) (List.cons_ne_nil _ _)
  | cons c rest ih =>
      rcases hat.stroke hjitter with ⟨hnil, -⟩ | ⟨c', armed, hcons, harmed, hdue, hstroke⟩
      · exact absurd (hrest.symm.trans hnil) (List.cons_ne_nil _ _)
      · obtain ⟨rfl, hrest'⟩ := List.cons.inj (hrest.symm.trans hcons)
        rw [hrest, List.map_cons, List.sum_cons] at hclock
        rcases b.idle_or time with hidle | ⟨other, hother, hdue_le⟩
        · exact ⟨_, hidle.runUntil_eq⟩
        · obtain rfl : armed = other := Option.some.inj (harmed.symm.trans hother)
          -- The next deadline is not behind the last one.
          have hnext : ∀ c' rest', line.toList.dropLast.drop (count + 1) = c' :: rest' →
              b.origin + armed.due * nanosPerMilli + b.performance.setup.tempo.strokeNanos c' <
                clockEnd := by
            intro c' rest' hcons'
            rw [hrest', hcons', List.map_cons, List.sum_cons] at hclock
            refine Nat.lt_of_le_of_lt ?_ hclock
            rw [Nat.add_assoc]
            refine Nat.add_le_add_left ?_ b.origin
            calc armed.due * nanosPerMilli + b.performance.setup.tempo.strokeNanos c'
                ≤ armed.due * nanosPerMilli +
                    b.performance.setup.tempo.strokeMillis c' * nanosPerMilli :=
                  Nat.add_le_add_left (Tempo.strokeNanos_le _ c') _
              _ = (armed.due + b.performance.setup.tempo.strokeMillis c') * nanosPerMilli :=
                  (Nat.add_mul _ _ _).symm
              _ ≤ _ := Nat.mul_le_mul_right _ (by rw [hdue]; omega)
          obtain ⟨rung, hring⟩ := hat.exists_ringAt harmed hjitter hfits hnext
          obtain ⟨hat', hnow, hsetup⟩ := hstroke rung hring
          rw [hat.runUntil_eq harmed hdue_le, Nat.max_eq_right (by omega), hring]
          refine ih hat' (hsetup ▸ hjitter) (hsetup ▸ hfits) ?_ (by omega) hrest'.symm
          rw [hsetup, hnow, origin_of_ringAt hring, hdue, ← hrest', Nat.add_assoc b.now]
          exact hclock

end Playback

end Typewriter

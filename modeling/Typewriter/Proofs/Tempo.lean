import Typewriter.Tempo

/-!
# Delays of a tempo

A delay is the sum of its parts: the interval, the rest after the character unless it is the last of
its line, and the random part.  It is too long only if this sum is (`exists_delay?_of_le`).  A
jitter below a millisecond has no random part (`delay?_of_jitter_lt`).
-/

namespace Typewriter.Tempo

variable {tempo : Tempo}

/-- Some draw of the random part makes the tempo wait so long after a character that is not the
last of its line. -/
def Allows (tempo : Tempo) (c : Char) (delay : Duration) : Prop :=
  ∃ draw, tempo.delay? draw c false = some delay

/-- No delay of a tempo is too long, whatever is drawn. -/
def Fits (tempo : Tempo) : Prop :=
  ∀ draw c isLast, tempo.delay? draw c isLast ≠ none

theorem nanos_jitterAmount_of_jitter_lt (hjitter : tempo.jitter.nanos < nanosPerMilli)
    (draw : Nat) : (tempo.jitterAmount draw).nanos = 0 := by
  have hlimit : tempo.jitterLimit = 0 := by
    simp [jitterLimit, Duration.wholeMillis, Nat.div_eq_of_lt hjitter]
  simp [jitterAmount, hlimit, Nat.mod_one]

/-- A jitter below a millisecond has no random part. -/
theorem delay?_of_jitter_lt (hjitter : tempo.jitter.nanos < nanosPerMilli) (draw : Nat) (c : Char) :
    tempo.delay? draw c false = tempo.interval.add? (tempo.rests.after c) := by
  have hamount := nanos_jitterAmount_of_jitter_lt hjitter draw
  have hadd (rested : Duration) : rested.add? (tempo.jitterAmount draw) = some rested :=
    Duration.add?_eq_some_iff.mpr (by rw [hamount, Nat.add_zero])
  unfold delay?
  cases htotal : tempo.interval.add? (tempo.rests.after c) with
  | none => simp
  | some rested => simp [hadd]

theorem Allows.nanos_eq {c : Char} {delay : Duration} (hallows : tempo.Allows c delay)
    (hjitter : tempo.jitter.nanos < nanosPerMilli) :
    delay.nanos = tempo.interval.nanos + (tempo.rests.after c).nanos := by
  obtain ⟨draw, hdelay⟩ := hallows
  rw [delay?_of_jitter_lt hjitter] at hdelay
  exact Duration.add?_eq_some_iff.mp hdelay

/-- A delay that fits is the sum of its parts. -/
theorem exists_delay?_of_le {draw : Nat} {c : Char}
    (hle : tempo.interval.nanos + (tempo.rests.after c).nanos + (tempo.jitterAmount draw).nanos ≤
      maxNanos) (isLast : Bool) :
    ∃ delay, tempo.delay? draw c isLast = some delay ∧
      delay.nanos = tempo.interval.nanos + (if isLast then 0 else (tempo.rests.after c).nanos) +
        (tempo.jitterAmount draw).nanos := by
  have hjittered {rested : Duration}
      (hfits : rested.nanos + (tempo.jitterAmount draw).nanos ≤ maxNanos) :
      ∃ delay, (if tempo.jitter = 0 then some rested else rested.add? (tempo.jitterAmount draw)) =
          some delay ∧ delay.nanos = rested.nanos + (tempo.jitterAmount draw).nanos := by
    split
    · rename_i hzero
      have hjitter : tempo.jitter.nanos < nanosPerMilli := by rw [hzero]; decide
      have hamount := nanos_jitterAmount_of_jitter_lt hjitter draw
      exact ⟨rested, rfl, by rw [hamount, Nat.add_zero]⟩
    · exact ⟨⟨_, hfits⟩, Duration.add?_eq_some_iff.mpr rfl, rfl⟩
  unfold delay?
  cases isLast with
  | true =>
      simp only [if_true, Option.bind_eq_bind, Option.bind_some]
      exact hjittered (by omega)
  | false =>
      have hrested : tempo.interval.add? (tempo.rests.after c) =
          some ⟨tempo.interval.nanos + (tempo.rests.after c).nanos, by omega⟩ :=
        Duration.add?_eq_some_iff.mpr rfl
      simp only [Bool.false_eq_true, if_false, hrested, Option.bind_eq_bind, Option.bind_some]
      exact hjittered hle

end Typewriter.Tempo

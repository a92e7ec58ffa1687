/-!
# Durations

A span of time is a whole number of nanoseconds.  Whole seconds fill 64 bits, so there is a longest
duration, and a sum of two durations may not exist.
-/

namespace Typewriter

/-- The nanoseconds of a second. -/
def nanosPerSecond : Nat := 1000000000

/-- The nanoseconds of a millisecond. -/
def nanosPerMilli : Nat := 1000000

/-- The longest duration: one nanosecond less than `2 ^ 64` seconds. -/
def maxNanos : Nat := UInt64.size * nanosPerSecond - 1

/-- A span of time. -/
structure Duration where
  nanos : Nat
  nanos_le : nanos ≤ maxNanos
deriving DecidableEq

namespace Duration

theorem ext {a b : Duration} (h : a.nanos = b.nanos) : a = b := by
  cases a; cases b; simp_all

instance : Zero Duration := ⟨⟨0, Nat.zero_le _⟩⟩

instance : Inhabited Duration := ⟨0⟩

/-- The duration of so many nanoseconds, if it is not too long. -/
def ofNanos? (n : Nat) : Option Duration :=
  if h : n ≤ maxNanos then some ⟨n, h⟩ else none

/-- The duration of so many milliseconds.  64 bits of them are never too long. -/
def ofMillis (m : UInt64) : Duration :=
  ⟨m.toNat * nanosPerMilli, by
    have := m.toNat_lt
    simp only [maxNanos, nanosPerSecond, nanosPerMilli, UInt64.size]
    omega⟩

/-- The sum of two durations, if it is not too long. -/
def add? (a b : Duration) : Option Duration :=
  ofNanos? (a.nanos + b.nanos)

/-- The whole milliseconds of a duration, rounded down. -/
def wholeMillis (d : Duration) : Nat :=
  d.nanos / nanosPerMilli

@[simp] theorem nanos_zero : (0 : Duration).nanos = 0 := rfl

@[simp] theorem nanos_ofMillis (m : UInt64) :
    (ofMillis m).nanos = m.toNat * nanosPerMilli := rfl

theorem ofNanos?_eq_some_iff {n : Nat} {d : Duration} : ofNanos? n = some d ↔ d.nanos = n := by
  unfold ofNanos?
  split
  · simp only [Option.some.injEq]
    exact ⟨fun h => h ▸ rfl, fun h => ext h.symm⟩
  · rename_i hn
    simp only [reduceCtorEq, false_iff]
    exact fun h => hn (h ▸ d.nanos_le)

theorem ofNanos?_eq_none_iff {n : Nat} : ofNanos? n = none ↔ maxNanos < n := by
  unfold ofNanos?
  split <;> simp <;> omega

theorem add?_eq_some_iff {a b c : Duration} :
    a.add? b = some c ↔ c.nanos = a.nanos + b.nanos :=
  ofNanos?_eq_some_iff

theorem add?_eq_none_iff {a b : Duration} :
    a.add? b = none ↔ maxNanos < a.nanos + b.nanos :=
  ofNanos?_eq_none_iff

end Duration

end Typewriter

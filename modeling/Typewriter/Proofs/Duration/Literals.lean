import Typewriter.Duration.Literal
import Typewriter.Proofs.Decimal.Binary64
import Typewriter.Proofs.Decimal.Literals
import Typewriter.Proofs.Text.Trimming

/-!
# What a written duration stands for

`IsSeconds` says which decimals are numbers of seconds of a duration: the nearest binary64 must not
be negative and stay below `2 ^ 64`, and its exact value is rounded to whole nanoseconds.  `Denotes`
is the form of a written duration and its length.  `ofSeconds_eq_ok_iff` and `read_eq_ok_iff` say
that reading follows both, and `exists_isSeconds_iff` that the two conditions on the binary64 are
all there is to fail.
-/

namespace Typewriter.Duration

open Binary64 (OnGrid EvenSignificand exactUnits tooManySeconds)

/-- The binary64 nearest to a decimal, as a magnitude, is neither negative nor past the end of the
durations.  Zero is not negative, whatever its sign. -/
def InRange (value : Decimal) (units : Nat) : Prop :=
  ∃ negative digits exponent, value = .finite negative digits exponent ∧
    Nearest OnGrid EvenSignificand (exactUnits digits exponent) units ∧
    (negative = true → units = 0) ∧ units < tooManySeconds

/-- The duration of a magnitude, to the nearest nanosecond. -/
def IsNearestTo (d : Duration) (units : Nat) : Prop :=
  Nearest Anywhere Even ((units * nanosPerSecond : Nat) / (Binary64.one : ℚ)) d.nanos

/-- A decimal and the duration of so many seconds. -/
def IsSeconds (value : Decimal) (d : Duration) : Prop :=
  ∃ units, InRange value units ∧ d.IsNearestTo units

/-- A written duration and its length. -/
inductive Denotes : List Char → Duration → Prop
  | millis {number blanks : List Char} {m : UInt64} (hnumber : Numeral.Denotes number m)
      (hblanks : Text.AllBlank blanks) : Denotes (number ++ blanks ++ ['m', 's']) (.ofMillis m)
  | seconds {number blanks : List Char} {value : Decimal} {d : Duration}
      (hnumber : Decimal.Denotes number value) (hblanks : Text.AllBlank blanks)
      (hseconds : IsSeconds value d) : Denotes (number ++ blanks ++ ['s']) d

variable {value : Decimal} {d : Duration} {units : Nat} {cs text number blanks : List Char}

/-! ## Seconds -/

theorem maxNanos_lt : maxNanos < 2 ^ 64 * nanosPerSecond := by decide

theorem exists_nanos_eq {n : Nat} (hle : n ≤ maxNanos) : ∃ d : Duration, d.nanos = n :=
  ⟨⟨n, hle⟩, rfl⟩

theorem isNearestTo_iff :
    d.IsNearestTo units ↔ d.nanos = roundDiv (units * nanosPerSecond) Binary64.one := by
  have hround := nearest_roundDiv (units * nanosPerSecond) Binary64.one_pos
  constructor
  · intro hd
    exact hd.eq alternates_anywhere hround
  · intro hd
    rw [IsNearestTo, hd]
    exact hround

/-- A magnitude that gives a duration is below the end of the durations. -/
theorem lt_tooManySeconds_of_isNearestTo (hd : d.IsNearestTo units) : units < tooManySeconds := by
  refine Nat.lt_of_not_le fun hle => ?_
  have hone : (0 : ℚ) < Binary64.one := Nat.cast_pos.mpr Binary64.one_pos
  have hlarge : 2 ^ 64 * nanosPerSecond ≤ d.nanos := by
    refine hd.ge trivial ?_
    rw [le_div_iff₀ hone]
    have hmul : 2 ^ 64 * nanosPerSecond * Binary64.one ≤ units * nanosPerSecond := by
      rw [mul_right_comm]
      exact Nat.mul_le_mul_right _ hle
    exact_mod_cast hmul
  exact absurd (Nat.le_trans hlarge d.nanos_le) (Nat.not_le_of_lt maxNanos_lt)

/-- Every magnitude below the end of the durations has a duration. -/
theorem exists_isNearestTo (hgrid : OnGrid units) (hlt : units < tooManySeconds) :
    ∃ d : Duration, d.IsNearestTo units := by
  have hone : (0 : ℚ) < Binary64.one := Nat.cast_pos.mpr Binary64.one_pos
  have hle : roundDiv (units * nanosPerSecond) Binary64.one ≤ maxNanos := by
    refine (nearest_roundDiv _ Binary64.one_pos).le_of_le trivial ?_
    rw [div_le_iff₀ hone]
    have hmul : units * nanosPerSecond ≤ maxNanos * Binary64.one :=
      calc units * nanosPerSecond
          ≤ (2 ^ 64 - 2 ^ 11) * Binary64.one * nanosPerSecond :=
            Nat.mul_le_mul_right _ (hgrid.le_of_lt_tooManySeconds hlt)
        _ = (2 ^ 64 - 2 ^ 11) * nanosPerSecond * Binary64.one := Nat.mul_right_comm _ _ _
        _ ≤ maxNanos * Binary64.one := Nat.mul_le_mul_right _ (by decide)
    exact_mod_cast hmul
  obtain ⟨d, hd⟩ := exists_nanos_eq hle
  exact ⟨d, isNearestTo_iff.mpr hd⟩

/-- A decimal is a number of seconds just if its nearest binary64 is in range. -/
theorem exists_isSeconds_iff : (∃ d, IsSeconds value d) ↔ ∃ units, InRange value units := by
  constructor
  · rintro ⟨d, units, hrange, -⟩
    exact ⟨units, hrange⟩
  · rintro ⟨units, hrange⟩
    have ⟨_, _, _, _, hnearest, _, hlt⟩ := hrange
    obtain ⟨d, hd⟩ := exists_isNearestTo hnearest.mem hlt
    exact ⟨d, units, hrange, hd⟩

theorem ofSeconds_eq_ok_iff : ofSeconds value = .ok d ↔ IsSeconds value d := by
  constructor
  · intro hread
    unfold ofSeconds at hread
    split at hread
    · contradiction
    · contradiction
    · contradiction
    · rename_i negative digits exponent
      dsimp only at hread
      split at hread
      · contradiction
      · rename_i hsign
        split at hread
        · rename_i d' hnanos
          obtain rfl := Except.ok.inj hread
          have hd : d'.IsNearestTo (Binary64.ofDecimal digits exponent) :=
            isNearestTo_iff.mpr (ofNanos?_eq_some_iff.mp hnanos)
          have hlt := lt_tooManySeconds_of_isNearestTo hd
          exact ⟨Binary64.ofDecimal digits exponent, ⟨negative, digits, exponent, rfl,
            Binary64.nearest_ofDecimal_of_lt hlt, not_and_not_right.mp hsign, hlt⟩, hd⟩
        · cases hread
  · rintro ⟨units, ⟨negative, digits, exponent, rfl, hnearest, hsign, hlt⟩, hd⟩
    obtain rfl := Binary64.eq_ofDecimal hnearest hlt
    have hkeep : ¬ (negative = true ∧ Binary64.ofDecimal digits exponent ≠ 0) := fun h =>
      h.2 (hsign h.1)
    rw [ofSeconds, if_neg hkeep, ofNanos?_eq_some_iff.mpr (isNearestTo_iff.mp hd)]

/-! ## Characters -/

theorem isBlank_of_isLiteralChar {c : Char} (hc : Decimal.IsLiteralChar c) :
    Text.isBlank c = false := by
  have hnumber := hc.toNat
  rw [Bool.eq_false_iff]
  intro hblank
  simp only [Text.isBlank, Bool.or_eq_true, Bool.and_eq_true, decide_eq_true_eq, beq_iff_eq]
    at hblank
  omega

theorem isLiteralChar_of_numeral {m : UInt64} (hnumber : Numeral.Denotes number m) {c : Char}
    (hc : c ∈ number) : Decimal.IsLiteralChar c := by
  rcases hnumber.mem hc with hdigit | rfl
  · exact .inl hdigit
  · exact .inr (by decide)

theorem tight_of_isLiteralChar (hcs : ∀ c ∈ cs, Decimal.IsLiteralChar c) : Text.Tight cs := by
  refine Text.tight_of_all (List.all_eq_true.mpr fun c hc => ?_)
  rw [isBlank_of_isLiteralChar (hcs c hc)]
  rfl

/-! ## Written durations -/

/-- The number of a written duration does not end like the unit of milliseconds. -/
theorem not_millis_of_seconds (hnumber : ∀ c ∈ number, Decimal.IsLiteralChar c)
    (hblanks : Text.AllBlank blanks) {other : List Char} :
    number ++ blanks ++ ['s'] ≠ other ++ ['m', 's'] := by
  intro heq
  have hm : 'm' ∈ number ++ blanks := by
    have hinit : number ++ blanks = other ++ ['m'] := by
      refine List.append_cancel_right (heq.trans ?_)
      rw [List.append_assoc]
      rfl
    rw [hinit]
    exact List.mem_append_right other (List.mem_singleton_self 'm')
  rcases List.mem_append.mp hm with hm | hm
  · exact absurd (hnumber 'm' hm).toNat (by decide)
  · exact absurd (hblanks 'm' hm) (by decide)

theorem isSuffixOf?_millis_of_seconds (hnumber : ∀ c ∈ number, Decimal.IsLiteralChar c)
    (hblanks : Text.AllBlank blanks) :
    ['m', 's'].isSuffixOf? (number ++ blanks ++ ['s']) = none := by
  rw [Option.eq_none_iff_forall_ne_some]
  intro other hother
  exact not_millis_of_seconds hnumber hblanks
    (List.isSuffixOf?_eq_some_iff_append_eq.mp hother).symm

theorem trim_number (hnumber : ∀ c ∈ number, Decimal.IsLiteralChar c)
    (hblanks : Text.AllBlank blanks) : Text.trim (number ++ blanks) = number :=
  Text.trim_append_of_allBlank hblanks (tight_of_isLiteralChar hnumber)

theorem readMillis_eq_ok_iff :
    readMillis cs = .ok d ↔ ∃ m, Numeral.Denotes (Text.trim cs) m ∧ d = ofMillis m := by
  unfold readMillis
  constructor
  · intro hread
    split at hread
    · rename_i m hm
      exact ⟨m, Numeral.read_eq_ok_iff.mp hm, (Except.ok.inj hread).symm⟩
    · cases hread
  · rintro ⟨m, hm, rfl⟩
    rw [Numeral.read_eq_ok_iff.mpr hm]

theorem readSeconds_eq_ok_iff :
    readSeconds cs = .ok d ↔
      ∃ value, Decimal.Denotes (Text.trim cs) value ∧ IsSeconds value d := by
  unfold readSeconds
  constructor
  · intro hread
    split at hread
    · cases hread
    · rename_i value hvalue
      split at hread
      · rename_i d' hseconds
        rw [← Except.ok.inj hread]
        exact ⟨value, Decimal.read_eq_ok_iff.mp hvalue, ofSeconds_eq_ok_iff.mp hseconds⟩
      · cases hread
  · rintro ⟨value, hvalue, hseconds⟩
    rw [Decimal.read_eq_ok_iff.mpr hvalue]
    dsimp only
    rw [ofSeconds_eq_ok_iff.mpr hseconds]

/-- Reading accepts just the written durations between blanks, and gives their length. -/
theorem read_eq_ok_iff : read cs = .ok d ↔ Denotes (Text.trim cs) d := by
  have htight := Text.tight_trim cs
  unfold read
  dsimp only
  generalize Text.trim cs = text at htight
  constructor
  · intro hread
    split at hread
    · rename_i number hsuffix
      obtain rfl := List.isSuffixOf?_eq_some_iff_append_eq.mp hsuffix
      obtain ⟨blanks, hblanks, hnumber⟩ := Text.exists_blanks_of_tight_append htight
      obtain ⟨m, hm, rfl⟩ := readMillis_eq_ok_iff.mp hread
      rw [hnumber]
      exact .millis hm hblanks
    · split at hread
      · rename_i number hsuffix
        obtain rfl := List.isSuffixOf?_eq_some_iff_append_eq.mp hsuffix
        obtain ⟨blanks, hblanks, hnumber⟩ := Text.exists_blanks_of_tight_append htight
        obtain ⟨value, hvalue, hseconds⟩ := readSeconds_eq_ok_iff.mp hread
        rw [hnumber]
        exact .seconds hvalue hblanks hseconds
      · cases hread
  · intro hwritten
    cases hwritten with
    | @millis number blanks m hnumber hblanks =>
        rw [List.isSuffixOf?_eq_some_iff_append_eq.mpr rfl]
        refine readMillis_eq_ok_iff.mpr ⟨m, ?_, rfl⟩
        rwa [trim_number (fun c => isLiteralChar_of_numeral hnumber) hblanks]
    | @seconds number blanks value _ hnumber hblanks hseconds =>
        rw [isSuffixOf?_millis_of_seconds (fun c => hnumber.isLiteralChar) hblanks,
          List.isSuffixOf?_eq_some_iff_append_eq.mpr rfl]
        refine readSeconds_eq_ok_iff.mpr ⟨value, ?_, hseconds⟩
        rwa [trim_number (fun c => hnumber.isLiteralChar) hblanks]

/-- Milliseconds written in decimal. -/
theorem denotes_ofMillis (m : UInt64) :
    Denotes (Nat.toDigits 10 m.toNat ++ ['m', 's']) (ofMillis m) := by
  have hwritten := Denotes.millis (Numeral.denotes_toDigits m) Text.AllBlank.nil
  rwa [List.append_nil] at hwritten

example : read "0.1e0\ts".toList = .ok (.ofMillis 100) := by decide +kernel

/-! ## Where a written duration can stand -/

variable {unit : List Char}

theorem mem_number_append_unit (hnumber : ∀ c ∈ number, Decimal.IsLiteralChar c)
    (hblanks : Text.AllBlank blanks) {c : Char} (hc : c ∈ number ++ blanks ++ unit) :
    Decimal.IsLiteralChar c ∨ Text.isBlank c = true ∨ c ∈ unit := by
  rcases List.mem_append.mp hc with hc | hunit
  · rcases List.mem_append.mp hc with hc | hc
    · exact .inl (hnumber c hc)
    · exact .inr (.inl (hblanks c hc))
  · exact .inr (.inr hunit)

/-- A written duration has no characters but those of literals, blanks, and the letters of its
unit. -/
theorem Denotes.mem (hwritten : Denotes cs d) {c : Char} (hc : c ∈ cs) :
    Decimal.IsLiteralChar c ∨ Text.isBlank c = true ∨ c ∈ ['m', 's'] := by
  cases hwritten with
  | millis hnumber hblanks =>
      exact mem_number_append_unit (fun c => isLiteralChar_of_numeral hnumber) hblanks hc
  | seconds hnumber hblanks =>
      refine (mem_number_append_unit (fun c => hnumber.isLiteralChar) hblanks hc).imp_right ?_
      exact Or.imp_right (List.mem_cons_of_mem 'm')

theorem tight_number_append_unit (hnumber : ∀ c ∈ number, Decimal.IsLiteralChar c)
    (hne : number ≠ []) (hunit : unit.all (!Text.isBlank ·) = true) (hunit_ne : unit ≠ []) :
    Text.Tight (number ++ blanks ++ unit) :=
  (tight_of_isLiteralChar hnumber).around (Text.tight_of_all hunit) hne hunit_ne blanks

/-- A written duration has no blanks around it. -/
theorem Denotes.tight (hwritten : Denotes cs d) : Text.Tight cs := by
  cases hwritten with
  | millis hnumber hblanks =>
      exact tight_number_append_unit (fun c => isLiteralChar_of_numeral hnumber) hnumber.ne_nil
        (by decide) (by decide)
  | seconds hnumber hblanks =>
      exact tight_number_append_unit (fun c => hnumber.isLiteralChar) hnumber.ne_nil
        (by decide) (by decide)

theorem Denotes.ne_nil (hwritten : Denotes cs d) : cs ≠ [] := by
  cases hwritten <;> simp

theorem Denotes.read_eq (hwritten : Denotes cs d) : read cs = .ok d := by
  rw [read_eq_ok_iff, Text.trim_of_tight hwritten.tight]
  exact hwritten

end Typewriter.Duration

import Typewriter.Proofs.Decimal.Precision
import Typewriter.Proofs.Duration.Literals

/-!
# Seconds of a written duration

A number of seconds is rounded twice, to a binary64 and from there to nanoseconds.  What decides
whether a literal is accepted is the value of the binary64 (`exists_isSeconds_iff_value` and the
`ofSeconds_eq_` lemmas).  Both errors add up (`IsSeconds.abs_sub_le`), and both roundings keep the
order (`IsSeconds.nanos_le_nanos`).  `read_seconds_literal` puts this together for what is read.
-/

namespace Typewriter

/-- The exact value of a literal that is made of digits. -/
def Decimal.toRat? : Decimal → Option ℚ
  | .finite negative digits exponent =>
      some (if negative then -(digits * 10 ^ exponent) else digits * 10 ^ exponent)
  | .infinite _ => none
  | .nan => none

namespace Duration

open Binary64 (OnGrid EvenSignificand RoundsTo exactUnits tooManySeconds)

variable {value : Decimal} {d : Duration} {units digits : Nat} {exponent : ℤ} {negative : Bool}
  {x : ℚ} {f : Binary64.Value} {literal : List Char} {cause : RangeFault}

/-! ## Reading -/

/-- A literal and the unit are read as the duration of so many seconds. -/
theorem read_literal (hliteral : Decimal.Denotes literal value) :
    read (literal ++ ['s']) = (ofSeconds value).mapError .range := by
  have hchars : ∀ c ∈ literal, Decimal.IsLiteralChar c := fun c => hliteral.isLiteralChar
  have htight : Text.Tight (literal ++ [] ++ ['s']) :=
    tight_number_append_unit hchars hliteral.ne_nil (by decide) (by decide)
  rw [List.append_nil] at htight
  have hmillis := isSuffixOf?_millis_of_seconds hchars Text.AllBlank.nil
  rw [List.append_nil] at hmillis
  have hnumber := trim_number hchars Text.AllBlank.nil
  rw [List.append_nil] at hnumber
  unfold read
  dsimp only
  rw [Text.trim_of_tight htight, hmillis, List.isSuffixOf?_eq_some_iff_append_eq.mpr rfl]
  dsimp only
  unfold readSeconds
  rw [hnumber, Decimal.read_eq_ok_iff.mpr hliteral]
  dsimp only
  cases ofSeconds value <;> rfl

theorem read_literal_eq_ok_iff (hliteral : Decimal.Denotes literal value) :
    read (literal ++ ['s']) = .ok d ↔ IsSeconds value d := by
  rw [read_literal hliteral, ← ofSeconds_eq_ok_iff]
  cases ofSeconds value <;> simp [Except.mapError]

theorem read_literal_eq_error_iff (hliteral : Decimal.Denotes literal value) :
    read (literal ++ ['s']) = .error (.range cause) ↔ ofSeconds value = .error cause := by
  rw [read_literal hliteral]
  cases ofSeconds value <;> simp [Except.mapError]

/-! ## From magnitudes to nanoseconds -/

/-- The nanoseconds of a magnitude, before rounding. -/
def exactNanos (units : Nat) : ℚ := (units * nanosPerSecond : Nat) / (Binary64.one : ℚ)

theorem exactNanos_nonneg (units : Nat) : 0 ≤ exactNanos units :=
  div_nonneg (Nat.cast_nonneg _) Binary64.one_cast_pos.le

theorem mul_one_mul_scale (x : ℚ) :
    x * Binary64.one * (nanosPerSecond / Binary64.one) = x * nanosPerSecond := by
  have hpos := Binary64.one_cast_pos
  field_simp

theorem scale_pos : (0 : ℚ) < nanosPerSecond / Binary64.one :=
  div_pos (Nat.cast_pos.mpr (by decide)) Binary64.one_cast_pos

theorem abs_sub_exactNanos (x : ℚ) (units : Nat) :
    |x * nanosPerSecond - exactNanos units| =
      |x * Binary64.one - units| * (nanosPerSecond / Binary64.one) := by
  have hscale : x * nanosPerSecond - exactNanos units =
      (x * Binary64.one - units) * (nanosPerSecond / Binary64.one) := by
    rw [sub_mul, mul_one_mul_scale, exactNanos, Nat.cast_mul, mul_div_assoc]
  rw [hscale, abs_mul, abs_of_pos scale_pos]

/-- Less than half a nanosecond is rounded away. -/
theorem nanos_eq_of_abs_lt {n : Nat} (hd : d.IsNearestTo units)
    (hlt : |exactNanos units - n| < 1 / 2) : d.nanos = n :=
  hd.eq alternates_anywhere (nearest_of_abs_le_half hlt.le fun htie => absurd htie hlt.ne)

/-- Magnitudes around the smallest ones are far less than half a nanosecond. -/
theorem scaled_lt_half (hlt : x < 2 ^ 54) : x * (nanosPerSecond / Binary64.one) < 1 / 2 := by
  obtain ⟨n, hn, hone⟩ := Binary64.exists_one_eq
  have hlarge : (2 ^ 85 : ℚ) ≤ Binary64.one := by
    rw [hone, Nat.cast_pow, Nat.cast_ofNat]
    exact pow_le_pow_right₀ one_le_two (by omega)
  have hnanos : (nanosPerSecond : ℚ) = 1000000000 := by norm_num [nanosPerSecond]
  rw [← mul_div_assoc, div_lt_iff₀ Binary64.one_cast_pos, hnanos]
  linarith

/-- Both roundings lead from around the smallest magnitudes to zero. -/
theorem abs_sub_nanos_le_half (hx : 0 ≤ x) (hsmall : x * Binary64.one < 2 ^ 53)
    (hhalf : |x * Binary64.one - units| ≤ 1 / 2) (hd : d.IsNearestTo units) :
    |x * nanosPerSecond - d.nanos| ≤ 1 / 2 := by
  have hunits : (units : ℚ) < 2 ^ 54 := by
    have hle := (abs_le.mp hhalf).1
    linarith
  have hzero : d.nanos = 0 := by
    refine nanos_eq_of_abs_lt hd ?_
    have hnanos : exactNanos units = units * (nanosPerSecond / Binary64.one) := by
      rw [exactNanos, Nat.cast_mul, mul_div_assoc]
    rw [Nat.cast_zero, sub_zero, abs_of_nonneg (exactNanos_nonneg units), hnanos]
    exact scaled_lt_half hunits
  have hlt : x * nanosPerSecond < 1 / 2 := by
    rw [← mul_one_mul_scale]
    exact scaled_lt_half (by linarith)
  rw [hzero, Nat.cast_zero, sub_zero, abs_of_nonneg (mul_nonneg hx (Nat.cast_nonneg _))]
  exact hlt.le

/-- A duration is off its exact value by half a nanosecond and the error of a binary64 at most. -/
theorem abs_sub_nanos_le (hx : 0 ≤ x)
    (hunits : Nearest OnGrid EvenSignificand (x * Binary64.one) units) (hd : d.IsNearestTo units) :
    |x * nanosPerSecond - d.nanos| ≤ 1 / 2 + x * nanosPerSecond / 2 ^ 53 := by
  have hpart : 0 ≤ x * nanosPerSecond / 2 ^ 53 :=
    div_nonneg (mul_nonneg hx (Nat.cast_nonneg _)) (by positivity)
  rcases Binary64.abs_sub_le_half_or (mul_nonneg hx Binary64.one_cast_pos.le) hunits with
    ⟨hsmall, hhalf⟩ | hrelative
  · have hle := abs_sub_nanos_le_half hx hsmall hhalf hd
    linarith
  · have hfirst : |x * nanosPerSecond - exactNanos units| ≤ x * nanosPerSecond / 2 ^ 53 := by
      rw [abs_sub_exactNanos, ← mul_one_mul_scale, mul_div_right_comm]
      exact mul_le_mul_of_nonneg_right hrelative scale_pos.le
    have hsecond : |exactNanos units - d.nanos| ≤ 1 / 2 :=
      hd.abs_sub_le_half (exactNanos_nonneg units)
    have htriangle := abs_sub_le (x * nanosPerSecond) (exactNanos units) (d.nanos : ℚ)
    linarith

/-- Durations keep the order of their exact values. -/
theorem nanos_le_nanos {y : ℚ} {units' : Nat} {d' : Duration} (hle : x ≤ y)
    (hunits : Nearest OnGrid EvenSignificand (x * Binary64.one) units) (hd : d.IsNearestTo units)
    (hunits' : Nearest OnGrid EvenSignificand (y * Binary64.one) units')
    (hd' : d'.IsNearestTo units') : d.nanos ≤ d'.nanos := by
  have hfirst : units ≤ units' := hunits.mono Binary64.alternates hunits'
    (mul_le_mul_of_nonneg_right hle Binary64.one_cast_pos.le)
  have hmiddle : exactNanos units ≤ exactNanos units' := by
    refine div_le_div_of_nonneg_right ?_ Binary64.one_cast_pos.le
    exact_mod_cast Nat.mul_le_mul_right nanosPerSecond hfirst
  exact Nearest.mono alternates_anywhere hd hd' hmiddle

/-! ## Values in range -/

/-- The magnitude of a number and its sign, which a zero may have too. -/
theorem exists_finite (hx : value.toRat? = some x) :
    ∃ negative digits exponent, value = .finite negative digits exponent ∧
      exactUnits digits exponent = |x| * Binary64.one ∧
      (x < 0 → negative = true) ∧ (negative = true → x ≤ 0) := by
  cases value with
  | infinite negative => contradiction
  | nan => contradiction
  | finite negative digits exponent =>
      have hmagnitude : (0 : ℚ) ≤ digits * 10 ^ exponent :=
        mul_nonneg (Nat.cast_nonneg digits) (zpow_nonneg (by norm_num) exponent)
      refine ⟨negative, digits, exponent, rfl, ?_⟩
      rw [← Option.some.inj hx]
      cases negative with
      | true =>
          rw [if_pos rfl, abs_neg, abs_of_nonneg hmagnitude]
          exact ⟨rfl, fun _ => rfl, fun _ => neg_nonpos.mpr hmagnitude⟩
      | false =>
          rw [if_neg Bool.false_ne_true, abs_of_nonneg hmagnitude]
          exact ⟨rfl, fun hneg => absurd hmagnitude hneg.not_ge, fun hneg => nomatch hneg⟩

theorem eq_zero_of_nearest (hx : x = 0)
    (hunits : Nearest OnGrid EvenSignificand (|x| * Binary64.one) units) : units = 0 := by
  rw [hx, abs_zero, zero_mul] at hunits
  exact hunits.eq Binary64.alternates (Binary64.nearest_zero le_rfl (by norm_num))

/-- A literal is in range just if the magnitude of its value is. -/
theorem inRange_iff (hx : value.toRat? = some x) :
    InRange value units ↔ Nearest OnGrid EvenSignificand (|x| * Binary64.one) units ∧
      (x < 0 → units = 0) ∧ units < tooManySeconds := by
  obtain ⟨negative, digits, exponent, rfl, hmagnitude, hneg, hle⟩ := exists_finite hx
  constructor
  · rintro ⟨_, _, _, heq, hunits, hzero, hlt⟩
    obtain ⟨rfl, rfl, rfl⟩ := Decimal.finite.inj heq
    exact ⟨hmagnitude ▸ hunits, fun hx => hzero (hneg hx), hlt⟩
  · rintro ⟨hunits, hzero, hlt⟩
    refine ⟨negative, digits, exponent, rfl, hmagnitude ▸ hunits, fun hsign => ?_, hlt⟩
    rcases (hle hsign).lt_or_eq with hx | hx
    · exact hzero hx
    · exact eq_zero_of_nearest hx hunits

/-- Seconds are accepted just if the nearest binary64 is in range. -/
theorem exists_isSeconds_iff_value (hx : value.toRat? = some x) (hf : RoundsTo x f) :
    (∃ d, IsSeconds value d) ↔ 0 ≤ f ∧ f < Binary64.ofRat (2 ^ 64) := by
  obtain ⟨units, hunits, hf⟩ := hf
  rw [hf, exists_isSeconds_iff, Binary64.value_inRange_iff, decide_eq_true_iff]
  constructor
  · rintro ⟨other, hrange⟩
    obtain ⟨hother, hzero, hlt⟩ := (inRange_iff hx).mp hrange
    obtain rfl := hother.eq Binary64.alternates hunits
    exact ⟨hzero, hlt⟩
  · rintro ⟨hzero, hlt⟩
    exact ⟨units, (inRange_iff hx).mpr ⟨hunits, hzero, hlt⟩⟩

theorem ofDecimal_eq_zero_iff
    (hunits : Nearest OnGrid EvenSignificand (exactUnits digits exponent) units) :
    Binary64.ofDecimal digits exponent = 0 ↔ units = 0 := by
  constructor
  · intro hzero
    have hlt : Binary64.ofDecimal digits exponent < tooManySeconds :=
      hzero ▸ Binary64.tooManySeconds_pos
    exact hzero ▸ hunits.eq Binary64.alternates (Binary64.nearest_ofDecimal_of_lt hlt)
  · rintro rfl
    exact (Binary64.eq_ofDecimal hunits Binary64.tooManySeconds_pos).symm

theorem ofSeconds_finite_eq_negative_iff :
    ofSeconds (.finite negative digits exponent) = .error .negative ↔
      negative = true ∧ Binary64.ofDecimal digits exponent ≠ 0 := by
  unfold ofSeconds
  dsimp only
  split
  · rename_i hsign
    exact iff_of_true rfl hsign
  · rename_i hsign
    refine iff_of_false ?_ hsign
    split <;> simp

/-- Seconds are rejected as negative just if the nearest binary64 is. -/
theorem ofSeconds_eq_negative_iff (hx : value.toRat? = some x) (hf : RoundsTo x f) :
    ofSeconds value = .error .negative ↔ f < 0 := by
  obtain ⟨units, hunits, hf⟩ := hf
  obtain ⟨negative, digits, exponent, rfl, hmagnitude, hneg, hle⟩ := exists_finite hx
  rw [hf, Binary64.value_lt_zero_iff, decide_eq_true_iff, ofSeconds_finite_eq_negative_iff, ne_eq,
    ofDecimal_eq_zero_iff (hmagnitude ▸ hunits), and_congr_left_iff]
  refine fun hnonzero => ⟨fun hsign => ?_, hneg⟩
  exact lt_of_le_of_ne (hle hsign) fun hzero => hnonzero (eq_zero_of_nearest hzero hunits)

/-- Seconds are rejected as too many just if the nearest binary64 is past the durations. -/
theorem ofSeconds_eq_tooLarge_iff (hx : value.toRat? = some x) (hf : RoundsTo x f) :
    ofSeconds value = .error .tooLarge ↔ Binary64.ofRat (2 ^ 64) ≤ f := by
  have haccepted := exists_isSeconds_iff_value hx hf
  have hnegative := ofSeconds_eq_negative_iff hx hf
  cases hread : ofSeconds value with
  | ok d =>
      have ⟨_, hlt⟩ := haccepted.mp ⟨d, ofSeconds_eq_ok_iff.mp hread⟩
      exact iff_of_false (by simp) hlt.not_ge
  | error cause =>
      cases cause with
      | negative =>
          have hneg := hnegative.mp hread
          exact iff_of_false (by simp) (hneg.trans Binary64.zero_lt_end).not_ge
      | tooLarge =>
          refine iff_of_true rfl (le_of_not_gt fun hlt => ?_)
          rw [hread] at hnegative
          have hnonneg : 0 ≤ f := le_of_not_gt fun hneg => by simpa using hnegative.mpr hneg
          obtain ⟨d, hd⟩ := haccepted.mpr ⟨hnonneg, hlt⟩
          rw [← ofSeconds_eq_ok_iff, hread] at hd
          contradiction

/-- What is accepted is the rounded literal, or zero for a negative one. -/
theorem IsSeconds.exists_nearest (hx : value.toRat? = some x) (hd : IsSeconds value d) :
    ∃ units, Nearest OnGrid EvenSignificand (max x 0 * Binary64.one) units ∧
      d.IsNearestTo units := by
  obtain ⟨units, hrange, hd⟩ := hd
  obtain ⟨hunits, hzero, -⟩ := (inRange_iff hx).mp hrange
  refine ⟨units, ?_, hd⟩
  rcases lt_or_ge x 0 with hneg | hnonneg
  · rw [max_eq_right hneg.le, zero_mul, hzero hneg]
    exact Binary64.nearest_zero le_rfl (by norm_num)
  · rwa [max_eq_left hnonneg, ← abs_of_nonneg hnonneg]

/-- A duration is off its literal by half a nanosecond and the error of a binary64 at most. -/
theorem IsSeconds.abs_sub_le (hx : value.toRat? = some x) (hd : IsSeconds value d) :
    |d.nanos - x * nanosPerSecond| ≤ 1 / 2 + |x| * nanosPerSecond / 2 ^ 53 := by
  obtain ⟨units, hrange, hnearest⟩ := hd
  obtain ⟨hunits, hzero, -⟩ := (inRange_iff hx).mp hrange
  have hle := abs_sub_nanos_le (abs_nonneg x) hunits hnearest
  rcases lt_or_ge x 0 with hneg | hnonneg
  · -- A negative literal is accepted as zero.
    have hnanos : d.nanos = 0 := by
      rw [hzero hneg] at hnearest
      refine nanos_eq_of_abs_lt hnearest ?_
      rw [exactNanos, Nat.zero_mul, Nat.cast_zero, zero_div, sub_zero, abs_zero]
      exact half_pos one_pos
    rw [hnanos, Nat.cast_zero, sub_zero, abs_mul, abs_abs] at hle
    rwa [hnanos, Nat.cast_zero, zero_sub, abs_neg, abs_mul]
  · rw [abs_of_nonneg hnonneg] at hle ⊢
    rwa [abs_sub_comm]

/-- Durations keep the order of their literals. -/
theorem IsSeconds.nanos_le_nanos {other : Decimal} {y : ℚ} {d' : Duration}
    (hx : value.toRat? = some x) (hy : other.toRat? = some y) (hle : x ≤ y)
    (hd : IsSeconds value d) (hd' : IsSeconds other d') : d.nanos ≤ d'.nanos := by
  obtain ⟨units, hunits, hd⟩ := hd.exists_nearest hx
  obtain ⟨units', hunits', hd'⟩ := hd'.exists_nearest hy
  exact Duration.nanos_le_nanos (max_le_max_right 0 hle) hunits hd hunits' hd'

/-! ## Literals -/

/-- A literal is accepted just if the nearest binary64 `f` is in range, and otherwise the fault says
on which side it is.  Of accepted literals, the error is small and the order is kept. -/
theorem read_seconds_literal (hliteral : Decimal.Denotes literal value) :
    (value.toRat? = none → ∃ cause, read (literal ++ ['s']) = .error (.range cause)) ∧
    ∀ x, value.toRat? = some x →
      (∃! f, RoundsTo x f) ∧
      (∀ f, RoundsTo x f →
        ((∃ d, read (literal ++ ['s']) = .ok d) ↔ 0 ≤ f ∧ f < Binary64.ofRat (2 ^ 64)) ∧
        (read (literal ++ ['s']) = .error (.range .negative) ↔ f < 0) ∧
        (read (literal ++ ['s']) = .error (.range .tooLarge) ↔
          Binary64.ofRat (2 ^ 64) ≤ f)) ∧
      ∀ d, read (literal ++ ['s']) = .ok d →
        |d.nanos - x * 10 ^ 9| ≤ 1 / 2 + |x| * 10 ^ 9 * 2 ^ (-53 : ℤ) ∧
        ∀ other value' y d', Decimal.Denotes other value' → value'.toRat? = some y → x ≤ y →
          read (other ++ ['s']) = .ok d' → d.nanos ≤ d'.nanos := by
  refine ⟨fun hnone => ?_, fun x hx => ⟨Binary64.existsUnique_roundsTo x, fun f hf => ⟨?_, ?_, ?_⟩,
    fun d hd => ⟨?_, ?_⟩⟩⟩
  · cases value with
    | finite => contradiction
    | nan => exact ⟨.tooLarge, (read_literal_eq_error_iff hliteral).mpr rfl⟩
    | infinite negative =>
        cases negative with
        | true => exact ⟨.negative, (read_literal_eq_error_iff hliteral).mpr rfl⟩
        | false => exact ⟨.tooLarge, (read_literal_eq_error_iff hliteral).mpr rfl⟩
  · simp only [read_literal_eq_ok_iff hliteral]
    exact exists_isSeconds_iff_value hx hf
  · rw [read_literal_eq_error_iff hliteral]
    exact ofSeconds_eq_negative_iff hx hf
  · rw [read_literal_eq_error_iff hliteral]
    exact ofSeconds_eq_tooLarge_iff hx hf
  · have hnanos : (nanosPerSecond : ℚ) = 10 ^ 9 := by norm_num [nanosPerSecond]
    have hle := ((read_literal_eq_ok_iff hliteral).mp hd).abs_sub_le hx
    rw [hnanos] at hle
    rwa [zpow_neg, ← div_eq_mul_inv]
  · intro other value' y d' hother hy hle hd'
    exact IsSeconds.nanos_le_nanos hx hy hle ((read_literal_eq_ok_iff hliteral).mp hd)
      ((read_literal_eq_ok_iff hother).mp hd')

/-- A negative literal that rounds to zero is accepted, and nothing accepted is below it. -/
theorem read_seconds_literal_of_underflow :
    read "-1e-400s".toList = .ok 0 ∧
      (∀ f, RoundsTo (-((1 : Nat) * 10 ^ (-400 : ℤ))) f →
        0 ≤ f ∧ f < Binary64.ofRat (2 ^ 64)) ∧
      (0 : Duration).nanos ≤ (ofMillis 1500).nanos := by
  have hliteral : Decimal.Denotes "-1e-400".toList (.finite true 1 (-400)) :=
    Decimal.read_eq_ok_iff.mp (by decide +kernel)
  have hother : Decimal.Denotes "1.5".toList (.finite false 15 (-1)) :=
    Decimal.read_eq_ok_iff.mp (by decide +kernel)
  have hread : read ("-1e-400".toList ++ ['s']) = .ok 0 := by decide +kernel
  have hreadOther : read ("1.5".toList ++ ['s']) = .ok (ofMillis 1500) := by decide +kernel
  obtain ⟨hrange, haccepted⟩ := ((read_seconds_literal hliteral).2 _ rfl).2
  have hle : (-((1 : Nat) * 10 ^ (-400 : ℤ)) : ℚ) ≤ (15 : Nat) * 10 ^ (-1 : ℤ) := by
    have hfirst : (0 : ℚ) ≤ (1 : Nat) * 10 ^ (-400 : ℤ) :=
      mul_nonneg (Nat.cast_nonneg 1) (zpow_nonneg (by norm_num) _)
    have hsecond : (0 : ℚ) ≤ (15 : Nat) * 10 ^ (-1 : ℤ) :=
      mul_nonneg (Nat.cast_nonneg 15) (zpow_nonneg (by norm_num) _)
    linarith
  exact ⟨hread, fun f hf => (hrange f hf).1.mp ⟨0, hread⟩,
    (haccepted 0 hread).2 _ _ _ _ hother rfl hle hreadOther⟩

end Duration

end Typewriter

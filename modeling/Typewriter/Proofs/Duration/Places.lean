import Typewriter.Duration.Inspect
import Typewriter.Proofs.Duration.Seconds

/-!
# Decimal places of seconds

Seconds with nine decimal places name every duration, and below `2 ^ 23` seconds they are read back
as just that duration (`read_secondsText`): there, the nearest binary64 is less than half a
nanosecond away, and so the second rounding takes back what the first one did.  Whole seconds are
not rounded at all up to `2 ^ 53` (`read_toDigits`).
-/

namespace Typewriter.Duration

open Binary64 (OnGrid EvenSignificand tooManySeconds)

variable {value : Decimal} {d : Duration} {units m : Nat} {x : ℚ} {literal : List Char}

/-! ## Writing -/

/-- Digits in front count as many places more as there are digits behind them. -/
theorem digitsNumber_append (cs rest : List Char) :
    digitsNumber (cs ++ rest) = 10 ^ rest.length * digitsNumber cs + digitsNumber rest := by
  rw [digitsNumber, Nat.ofDigitChars_append, Nat.ofDigitChars_eq_ofDigitChars_zero]

theorem length_padded {width n : Nat} (hwidth : 0 < width) (hlt : n < 10 ^ width) :
    (padded width n).length = width := by
  have hle : (Nat.toDigits 10 n).length ≤ width :=
    (Nat.length_toDigits_le_iff (by decide) hwidth).mpr hlt
  rw [padded, List.length_append, List.length_replicate]
  exact Nat.sub_add_cancel hle

theorem allDigits_padded (width n : Nat) : AllDigits (padded width n) := by
  intro c hc
  rcases List.mem_append.mp hc with hc | hc
  · rw [List.eq_of_mem_replicate hc]
    rfl
  · exact allDigits_toDigits n c hc

theorem digitsNumber_padded (width n : Nat) : digitsNumber (padded width n) = n := by
  rw [padded, digitsNumber, Nat.ofDigitChars_append, Nat.ofDigitChars_replicate_zero,
    Nat.mul_zero]
  exact digitsNumber_toDigits n

/-- So many nanoseconds as a number of seconds with nine decimal places. -/
def secondsText (n : Nat) : List Char :=
  Nat.toDigits 10 (n / nanosPerSecond) ++ '.' :: padded 9 (n % nanosPerSecond)

theorem denotes_secondsText (n : Nat) :
    Decimal.Denotes (secondsText n) (.finite false n (-9)) := by
  have hlt : n % nanosPerSecond < 10 ^ 9 := Nat.mod_lt n (by decide)
  have hlength := length_padded (by decide) hlt
  have hnumber : digitsNumber
      (Nat.toDigits 10 (n / nanosPerSecond) ++ padded 9 (n % nanosPerSecond)) = n := by
    rw [digitsNumber_append, hlength, digitsNumber_padded, digitsNumber_toDigits]
    exact Nat.div_add_mod n nanosPerSecond
  have hmantissa := Decimal.IsMantissa.point (allDigits_toDigits (n / nanosPerSecond))
    (allDigits_padded 9 (n % nanosPerSecond)) (.inl Nat.toDigits_ne_nil)
  have hunsigned : Decimal.Unsigned false _ _ := .finite hmantissa .missing
  rw [hnumber, hlength, List.append_nil] at hunsigned
  exact ⟨[], false, _, .missing, hunsigned, rfl⟩

theorem denotes_toDigits (m : Nat) :
    Decimal.Denotes (Nat.toDigits 10 m) (.finite false m 0) := by
  have hmantissa := Decimal.IsMantissa.whole (allDigits_toDigits m) Nat.toDigits_ne_nil
  have hunsigned : Decimal.Unsigned false _ _ := .finite hmantissa .missing
  rw [List.append_nil, digitsNumber_toDigits] at hunsigned
  exact ⟨[], false, _, .missing, hunsigned, rfl⟩

/-! ## Reading -/

/-- Up to `2 ^ 23` seconds a binary64 is less than half a nanosecond away. -/
theorem abs_sub_lt_half (hx : 0 ≤ x) (hlt : x < 2 ^ 23)
    (hunits : Nearest OnGrid EvenSignificand (x * Binary64.one) units) :
    |x * nanosPerSecond - exactNanos units| < 1 / 2 := by
  have hpos := Binary64.one_cast_pos
  obtain ⟨n, hn, hone⟩ := Binary64.exists_one_eq
  obtain ⟨e, rfl⟩ : ∃ e, n = e + 30 := Nat.exists_eq_add_of_le' (by omega)
  have hstep : (Binary64.one : ℚ) = 2 ^ e * 2 ^ 30 := by
    rw [hone, Nat.cast_pow, Nat.cast_ofNat, pow_add]
  have hbelow : x * Binary64.one < 2 ^ 53 * 2 ^ e := by
    calc x * Binary64.one < 2 ^ 23 * Binary64.one := mul_lt_mul_of_pos_right hlt hpos
      _ = 2 ^ 53 * 2 ^ e := by rw [hstep]; ring
  have hhalf := Binary64.abs_sub_le_half_step (mul_nonneg hx hpos.le) hbelow hunits
  rw [abs_sub_exactNanos]
  calc |x * Binary64.one - units| * (nanosPerSecond / Binary64.one)
      ≤ 2 ^ e / 2 * (nanosPerSecond / Binary64.one) := mul_le_mul_of_nonneg_right hhalf scale_pos.le
    _ = nanosPerSecond / 2 ^ 31 := by
        rw [hstep]
        field_simp
    _ < 1 / 2 := by norm_num [nanosPerSecond]

/-- A literal is read as a duration that its binary64 is less than half a nanosecond away from. -/
theorem read_literal_of_abs_lt (hliteral : Decimal.Denotes literal value)
    (hx : value.toRat? = some x) (hnonneg : 0 ≤ x)
    (hunits : Nearest OnGrid EvenSignificand (x * Binary64.one) units)
    (hlt : units < tooManySeconds) (hnear : |exactNanos units - d.nanos| < 1 / 2) :
    read (literal ++ ['s']) = .ok d := by
  have hd : d.IsNearestTo units :=
    nearest_of_abs_le_half hnear.le fun htie => absurd htie hnear.ne
  refine (read_literal_eq_ok_iff hliteral).mpr ⟨units, (inRange_iff hx).mpr ⟨?_, ?_, hlt⟩, hd⟩
  · rwa [abs_of_nonneg hnonneg]
  · exact fun hneg => absurd hnonneg hneg.not_ge

theorem mul_one_lt_tooManySeconds (hm : m ≤ 2 ^ 53) : m * Binary64.one < tooManySeconds :=
  Nat.mul_lt_mul_of_pos_right (Nat.lt_of_le_of_lt hm (by decide)) Binary64.one_pos

/-- Nine decimal places are read exactly. -/
theorem read_secondsText (hd : d.nanos < 2 ^ 23 * nanosPerSecond) :
    read (secondsText d.nanos ++ ['s']) = .ok d := by
  have hpos : (0 : ℚ) < nanosPerSecond := Nat.cast_pos.mpr (by decide)
  have hx : (Decimal.finite false d.nanos (-9)).toRat? =
      some ((d.nanos : ℚ) / nanosPerSecond) := by
    rw [Decimal.toRat?, if_neg Bool.false_ne_true]
    norm_num [nanosPerSecond, div_eq_mul_inv]
  have hnonneg : (0 : ℚ) ≤ d.nanos / nanosPerSecond := div_nonneg (Nat.cast_nonneg _) hpos.le
  have hlt : (d.nanos : ℚ) / nanosPerSecond < 2 ^ 23 := by
    rw [div_lt_iff₀ hpos]
    exact_mod_cast hd
  obtain ⟨units, hunits⟩ := Binary64.exists_nearest (mul_nonneg hnonneg Binary64.one_cast_pos.le)
  have hle : units ≤ 2 ^ 23 * Binary64.one := by
    refine hunits.le_of_le (Binary64.onGrid_mul_one (by decide)) ?_
    rw [Nat.cast_mul, Nat.cast_pow, Nat.cast_ofNat]
    exact mul_le_mul_of_nonneg_right hlt.le Binary64.one_cast_pos.le
  have hhalf := abs_sub_lt_half hnonneg hlt hunits
  rw [div_mul_cancel₀ _ hpos.ne', abs_sub_comm] at hhalf
  exact read_literal_of_abs_lt (denotes_secondsText d.nanos) hx hnonneg hunits
    (hle.trans_lt (mul_one_lt_tooManySeconds (by decide))) hhalf

/-- Whole seconds are numbers of binary64. -/
theorem read_toDigits (hm : m ≤ 2 ^ 53) (hd : d.nanos = m * nanosPerSecond) :
    read (Nat.toDigits 10 m ++ ['s']) = .ok d := by
  have hx : (Decimal.finite false m 0).toRat? = some (m : ℚ) := by
    rw [Decimal.toRat?, if_neg Bool.false_ne_true, zpow_zero, mul_one]
  have hunits : Nearest OnGrid EvenSignificand ((m : ℚ) * Binary64.one) (m * Binary64.one) := by
    rw [← Nat.cast_mul]
    exact nearest_of_mem (Binary64.onGrid_mul_one hm)
  refine read_literal_of_abs_lt (denotes_toDigits m) hx (Nat.cast_nonneg m) hunits
    (mul_one_lt_tooManySeconds hm) ?_
  rw [exactNanos, hd, Nat.mul_right_comm, Nat.cast_mul, mul_div_cancel_right₀ _
    Binary64.one_cast_pos.ne', sub_self, abs_zero]
  exact half_pos one_pos

/-- Up to `2 ^ 23` seconds, nine decimal places are read exactly, and so are whole seconds up to
`2 ^ 53`.  These are read like their milliseconds, which fit into 64 bits then. -/
theorem read_seconds_exact :
    (∀ d : Duration, d.nanos < 2 ^ 23 * nanosPerSecond →
      read (secondsText d.nanos ++ ['s']) = .ok d) ∧
    ∀ m ≤ 2 ^ 53,
      (read (Nat.toDigits 10 m ++ ['s'])).map nanos = .ok (m * nanosPerSecond) ∧
      read (Nat.toDigits 10 (1000 * m) ++ ['m', 's']) = read (Nat.toDigits 10 m ++ ['s']) := by
  refine ⟨fun d => read_secondsText, fun m hm => ?_⟩
  have hmillis : (UInt64.ofNat (1000 * m)).toNat = 1000 * m :=
    UInt64.toNat_ofNat_of_lt' (Nat.lt_of_le_of_lt (Nat.mul_le_mul_left 1000 hm) (by decide))
  have hnanos : (ofMillis (UInt64.ofNat (1000 * m))).nanos = m * nanosPerSecond := by
    rw [nanos_ofMillis, hmillis, nanosPerMilli, nanosPerSecond]
    omega
  have hmillisRead := (denotes_ofMillis (UInt64.ofNat (1000 * m))).read_eq
  rw [hmillis] at hmillisRead
  have hseconds := read_toDigits hm hnanos
  rw [hmillisRead, hseconds]
  exact ⟨congrArg Except.ok hnanos, rfl⟩

theorem read_seconds_exact_of_largest :
    read "8388607.999999999s".toList = .ok ⟨8388607999999999, by decide⟩ ∧
      read "9007199254740992000ms".toList = read "9007199254740992s".toList := by
  have hfirst := read_seconds_exact.1 ⟨8388607999999999, by decide⟩ (by decide)
  have hsecond := (read_seconds_exact.2 (2 ^ 53) le_rfl).2
  exact ⟨hfirst, hsecond⟩

end Typewriter.Duration

import Mathlib.Data.Nat.Cast.Order.Field
import Mathlib.Tactic.Positivity
import Mathlib.Tactic.Ring
import Typewriter.Proofs.Decimal.Rounding

/-!
# The binary64 grid

A binary64 magnitude is a significand of 53 bits times a power of two.  In units of `2 ^ -1074` it
is a whole number, and its exponent is not negative.  It is even if its significand is, in the form
that has the smallest exponent or a leading one.

Rounding looks for the spacing of the grid around a value and rounds to a multiple of it.  Numbers
of the grid that are no multiples lie below the value, behind one that is a multiple
(`eq_mul_or_lt`), so the nearest multiple is nearest (`nearest_mul_of_nearest`).

Decimal exponents are cut off before rounding: far down both values round to zero, and far up both
are past `2 ^ 64`.  So a value that rounds below `2 ^ 64` is rounded as it was written
(`nearest_ofDecimal`, `eq_ofDecimal`).
-/

namespace Typewriter.Binary64

/-- The magnitudes of binary64, with no upper end. -/
def OnGrid (units : Nat) : Prop :=
  ∃ m e, m < 2 ^ 53 ∧ units = m * 2 ^ e

/-- The significand of a magnitude is even. -/
def EvenSignificand (units : Nat) : Prop :=
  ∃ m e, Even m ∧ m < 2 ^ 53 ∧ (e = 0 ∨ 2 ^ 52 ≤ m) ∧ units = m * 2 ^ e

variable {x : ℚ} {q k z num den digits : Nat} {exponent : ℤ}

theorem OnGrid.eq_mul_or_lt (hz : OnGrid z) (k : Nat) :
    (∃ j, z = j * 2 ^ k) ∨ 0 < k ∧ z < 2 ^ 52 * 2 ^ k := by
  obtain ⟨m, e, hm, rfl⟩ := hz
  rcases le_or_gt k e with hle | hlt
  · refine .inl ⟨m * 2 ^ (e - k), ?_⟩
    rw [mul_assoc, ← pow_add, Nat.sub_add_cancel hle]
  · refine .inr ⟨Nat.zero_lt_of_lt hlt, ?_⟩
    calc m * 2 ^ e < 2 ^ 53 * 2 ^ e := Nat.mul_lt_mul_of_pos_right hm (Nat.two_pow_pos e)
      _ = 2 ^ 52 * 2 ^ (e + 1) := by ring
      _ ≤ 2 ^ 52 * 2 ^ k := Nat.mul_le_mul_left _ (Nat.pow_le_pow_right two_pos hlt)

/-- The number of the grid that follows an even one is odd. -/
theorem alternates : Alternates OnGrid EvenSignificand := by
  rintro a b ⟨m, e, hm, hlt, hform, rfl⟩ ⟨m', e', hm', hlt', -, rfl⟩ hab
  rw [Nat.even_iff] at hm hm'
  refine ⟨(m + 1) * 2 ^ e, ⟨m + 1, e, by omega, rfl⟩, ?_, ?_⟩
  · exact Nat.mul_lt_mul_of_pos_right (Nat.lt_succ_self m) (Nat.two_pow_pos e)
  · rcases le_or_gt e e' with hle | hlow
    · have hb : m' * 2 ^ e' = m' * 2 ^ (e' - e) * 2 ^ e := by
        rw [mul_assoc, ← pow_add, Nat.sub_add_cancel hle]
      rw [hb] at hab ⊢
      have hsucc : m + 1 ≤ m' * 2 ^ (e' - e) := Nat.lt_of_mul_lt_mul_right hab
      have heven : m' * 2 ^ (e' - e) % 2 = 0 := by rw [Nat.mul_mod, hm', Nat.zero_mul, Nat.zero_mod]
      exact Nat.mul_lt_mul_of_pos_right (by omega) (Nat.two_pow_pos e)
    · -- A smaller exponent puts the second number below the first.
      have hlead : 2 ^ 52 ≤ m := hform.resolve_left (by omega)
      have hbelow : m' * 2 ^ e' < m * 2 ^ e :=
        calc m' * 2 ^ e' < 2 ^ 53 * 2 ^ e' :=
              Nat.mul_lt_mul_of_pos_right hlt' (Nat.two_pow_pos e')
          _ = 2 ^ 52 * 2 ^ (e' + 1) := by ring
          _ ≤ m * 2 ^ e := Nat.mul_le_mul hlead (Nat.pow_le_pow_right two_pos hlow)
      omega

/-- A multiple of the spacing is a magnitude, and its parity is that of its significand. -/
theorem exists_significand (hlow : k = 0 ∨ 2 ^ 52 ≤ q) (hhigh : q ≤ 2 ^ 53) :
    ∃ m e, m < 2 ^ 53 ∧ (e = 0 ∨ 2 ^ 52 ≤ m) ∧ q * 2 ^ k = m * 2 ^ e ∧ (Even q → Even m) := by
  rcases Nat.lt_or_eq_of_le hhigh with hlt | rfl
  · exact ⟨q, k, hlt, hlow, rfl, id⟩
  · exact ⟨2 ^ 52, k + 1, by decide, .inr le_rfl, by ring, fun _ => by decide⟩

/-- The nearest multiple of the spacing is the nearest magnitude. -/
theorem nearest_mul_of_nearest (hq : Nearest Anywhere Even (x / 2 ^ k) q)
    (hlow : k = 0 ∨ 2 ^ 52 * 2 ^ k ≤ x) (hhigh : x ≤ 2 ^ 53 * 2 ^ k) :
    Nearest OnGrid EvenSignificand x (q * 2 ^ k) := by
  have hstep : (0 : ℚ) < 2 ^ k := by positivity
  have hq53 : q ≤ 2 ^ 53 := by
    refine hq.le_of_le trivial ?_
    rw [div_le_iff₀ hstep]
    exact_mod_cast hhigh
  have hq52 : k = 0 ∨ 2 ^ 52 ≤ q := by
    refine hlow.imp_right fun hle => hq.ge trivial ?_
    rw [le_div_iff₀ hstep]
    exact_mod_cast hle
  obtain ⟨m, e, hm, hform, heq, heven⟩ := exists_significand hq52 hq53
  have hscale (j : Nat) : |x - (j * 2 ^ k : Nat)| = 2 ^ k * |x / 2 ^ k - j| := by
    rw [← abs_of_pos hstep, ← abs_mul, abs_of_pos hstep, mul_sub, mul_div_cancel₀ _ hstep.ne']
    push_cast
    rw [mul_comm (j : ℚ)]
  -- Below the spacing of the value, one multiple of it is nearer than all other numbers.
  have hfar {z : Nat} (hz : 0 < k ∧ z < 2 ^ 52 * 2 ^ k) : |x - (q * 2 ^ k : Nat)| < |x - z| := by
    have hx : (2 ^ 52 * 2 ^ k : ℚ) ≤ x := hlow.resolve_left hz.1.ne'
    have hzx : (z : ℚ) < 2 ^ 52 * 2 ^ k := by exact_mod_cast hz.2
    have hnear : |x - (q * 2 ^ k : Nat)| ≤ |x - (2 ^ 52 * 2 ^ k : Nat)| := by
      rw [hscale, hscale]
      exact mul_le_mul_of_nonneg_left (hq.le _ trivial) hstep.le
    refine lt_of_le_of_lt hnear ?_
    push_cast
    rw [abs_of_nonneg (by linarith), abs_of_nonneg (by linarith)]
    linarith
  refine ⟨⟨m, e, hm, heq⟩, fun z hz => ?_, fun z hz hne htie => ?_⟩
  · rcases hz.eq_mul_or_lt k with ⟨j, rfl⟩ | hbelow
    · rw [hscale, hscale]
      exact mul_le_mul_of_nonneg_left (hq.le j trivial) hstep.le
    · exact (hfar hbelow).le
  · rcases hz.eq_mul_or_lt k with ⟨j, rfl⟩ | hbelow
    · rw [hscale, hscale] at htie
      have hjq : j ≠ q := fun h => hne (by rw [h])
      exact ⟨m, e, heven (hq.even j trivial hjq (mul_left_cancel₀ hstep.ne' htie)), hm, hform, heq⟩
    · exact absurd htie (hfar hbelow).ne'

theorem spacing_eq (units : Nat) : spacing units = 2 ^ (units.log2 - 52) := Nat.pow_eq

/-- The spacing is that of the numbers around a value: either it is one, or the value has a
significand with a leading one. -/
theorem nearest_mul_spacing (num : Nat) (hden : 0 < den) :
    Nearest OnGrid EvenSignificand ((num : ℚ) / den)
      (roundDiv num (den * spacing (num / den)) * spacing (num / den)) := by
  have hpos : (0 : ℚ) < den := Nat.cast_pos.mpr hden
  obtain ⟨units, hunits⟩ : ∃ units, units = num / den := ⟨_, rfl⟩
  have hfloor : (units : ℚ) ≤ num / den := hunits ▸ Nat.cast_div_le
  have hceil : (num : ℚ) / den < units + 1 := by
    rw [div_lt_iff₀ hpos, mul_comm, hunits]
    exact_mod_cast Nat.lt_mul_div_succ num hden
  rw [← hunits, spacing_eq]
  obtain ⟨k, hk⟩ : ∃ k, k = units.log2 - 52 := ⟨_, rfl⟩
  have hlog : units + 1 ≤ 2 ^ (units.log2 + 1) := Nat.lt_log2_self
  rw [← hk]
  refine nearest_mul_of_nearest ?_ ?_ ?_
  · have hround := nearest_roundDiv num (Nat.mul_pos hden (Nat.two_pow_pos k))
    push_cast at hround
    rwa [← div_div] at hround
  · rcases Nat.eq_zero_or_pos k with hzero | hk'
    · exact .inl hzero
    · have hne : units ≠ 0 := by
        rintro rfl
        rw [Nat.log2_zero] at hk
        omega
      have hle : 2 ^ 52 * 2 ^ k ≤ units := by
        rw [← pow_add, show 52 + k = units.log2 by omega]
        exact Nat.log2_self_le hne
      exact .inr (le_trans (by exact_mod_cast hle) hfloor)
  · have hle : units + 1 ≤ 2 ^ 53 * 2 ^ k := by
      rw [← pow_add]
      exact le_trans hlog (Nat.pow_le_pow_right two_pos (by omega))
    exact le_trans hceil.le (by exact_mod_cast hle)

theorem nearest_nearest (num : Nat) (hden : 0 < den) :
    Nearest OnGrid EvenSignificand ((num : ℚ) * one / den) (nearest num den) := by
  have hnearest := nearest_mul_spacing (num * one) hden
  rwa [Nat.cast_mul] at hnearest

/-! ## Decimal values -/

/-- The exponent stands behind a name, so that no step evaluates the power. -/
theorem exists_one_eq : ∃ n, n = 1074 ∧ one = 2 ^ n := by
  refine ⟨1074, rfl, ?_⟩
  unfold one
  generalize 1074 = n
  exact Nat.pow_eq

theorem one_pos : 0 < one := by
  obtain ⟨n, -, hone⟩ := exists_one_eq
  rw [hone]
  exact Nat.two_pow_pos n

/-- The exact value of a decimal, in units. -/
def exactUnits (digits : Nat) (exponent : ℤ) : ℚ := digits * 10 ^ exponent * one

/-- The first magnitude that is no number of seconds of a duration. -/
def tooManySeconds : Nat := 2 ^ 64 * one

theorem onGrid_tooManySeconds : OnGrid tooManySeconds := by
  obtain ⟨n, -, hone⟩ := exists_one_eq
  refine ⟨1, 64 + n, by decide, ?_⟩
  rw [tooManySeconds, hone, one_mul, pow_add]

/-- The last magnitude that is a number of seconds of a duration is `2 ^ 11` seconds away from the
first that is none. -/
theorem OnGrid.le_of_lt_tooManySeconds (hz : OnGrid z) (hlt : z < tooManySeconds) :
    z ≤ (2 ^ 64 - 2 ^ 11) * one := by
  obtain ⟨n, -, hone⟩ := exists_one_eq
  rw [tooManySeconds, hone] at hlt
  rw [hone]
  obtain ⟨m, e, hm, rfl⟩ := hz
  rcases le_or_gt (n + 11) e with hle | hgt
  · obtain ⟨rest, rfl⟩ := Nat.exists_eq_add_of_le hle
    have hsplit : m * 2 ^ (n + 11 + rest) = m * 2 ^ rest * 2 ^ 11 * 2 ^ n := by ring
    rw [hsplit] at hlt ⊢
    have hlt' : m * 2 ^ rest * 2 ^ 11 < 2 ^ 64 := Nat.lt_of_mul_lt_mul_right hlt
    exact Nat.mul_le_mul_right _ (by omega)
  · calc m * 2 ^ e ≤ 2 ^ 53 * 2 ^ (n + 10) :=
          Nat.mul_le_mul hm.le (Nat.pow_le_pow_right two_pos (by omega))
      _ = 2 ^ 63 * 2 ^ n := by ring
      _ ≤ (2 ^ 64 - 2 ^ 11) * 2 ^ n := Nat.mul_le_mul_right _ (by decide)

theorem nearest_zero (hnonneg : 0 ≤ x) (hlt : x < 1 / 2) : Nearest OnGrid EvenSignificand x 0 := by
  have hdist : |x / 2 ^ 0 - (0 : Nat)| < 1 / 2 := by
    rwa [pow_zero, div_one, Nat.cast_zero, sub_zero, abs_of_nonneg hnonneg]
  have hzero : Nearest Anywhere Even (x / 2 ^ 0) 0 :=
    nearest_of_abs_le_half hdist.le fun htie => absurd htie hdist.ne
  have hnearest := nearest_mul_of_nearest hzero (.inl rfl) (by linarith)
  rwa [Nat.zero_mul] at hnearest

/-- So few are the units of one that a decimal exponent of -400 leaves less than half a unit. -/
theorem two_mul_one_lt : 2 * one < 10 ^ 400 := by
  obtain ⟨n, rfl, hone⟩ := exists_one_eq
  rw [hone]
  calc 2 * 2 ^ 1074 = (2 ^ 43) ^ 25 := by rw [← pow_succ', ← pow_mul]
    _ < (10 ^ 16) ^ 25 := Nat.pow_lt_pow_left (by decide) (by decide)
    _ = 10 ^ 400 := by rw [← pow_mul]

theorem digits_lt (digits : Nat) : digits < 10 ^ (digits.log2 + 1) :=
  lt_of_lt_of_le Nat.lt_log2_self (Nat.pow_le_pow_left (by decide) _)

theorem exactUnits_nonneg (digits : Nat) (exponent : ℤ) : 0 ≤ exactUnits digits exponent :=
  mul_nonneg (mul_nonneg (Nat.cast_nonneg _) (zpow_nonneg (by norm_num) _)) (Nat.cast_nonneg _)

/-- Up to the lower cut, a value is less than half a unit. -/
theorem exactUnits_lt_half (hexponent : exponent ≤ minExponent digits) :
    exactUnits digits exponent < 1 / 2 := by
  obtain ⟨length, hlength⟩ : ∃ length, length = digits.log2 + 1 := ⟨_, rfl⟩
  have hdigits : digits < 10 ^ length := hlength ▸ digits_lt digits
  have hpow : (10 : ℚ) ^ exponent ≤ ((10 ^ 400 * 10 ^ length : Nat) : ℚ)⁻¹ := by
    have hle : exponent ≤ -((400 + length : Nat) : ℤ) := by
      rw [minExponent, ← hlength] at hexponent
      omega
    calc (10 : ℚ) ^ exponent ≤ 10 ^ (-((400 + length : Nat) : ℤ)) :=
          zpow_le_zpow_right₀ (by norm_num) hle
      _ = ((10 ^ 400 * 10 ^ length : Nat) : ℚ)⁻¹ := by
          rw [zpow_neg, zpow_natCast, ← pow_add, Nat.cast_pow, Nat.cast_ofNat]
  have hbound : digits * one * 2 < 10 ^ 400 * 10 ^ length := by
    have hmul := Nat.mul_lt_mul'' hdigits two_mul_one_lt
    rw [mul_comm (10 ^ length)] at hmul
    rwa [mul_assoc, mul_comm one]
  have hpos : (0 : ℚ) < (10 ^ 400 * 10 ^ length : Nat) :=
    Nat.cast_pos.mpr (Nat.zero_lt_of_lt hbound)
  calc exactUnits digits exponent
      ≤ digits * ((10 ^ 400 * 10 ^ length : Nat) : ℚ)⁻¹ * one :=
        mul_le_mul_of_nonneg_right (mul_le_mul_of_nonneg_left hpow (Nat.cast_nonneg _))
          (Nat.cast_nonneg _)
    _ = (digits * one : Nat) / (10 ^ 400 * 10 ^ length : Nat) := by
        rw [Nat.cast_mul digits, div_eq_mul_inv, mul_right_comm]
    _ < 1 / 2 := by
        rw [div_lt_div_iff₀ hpos two_pos, one_mul]
        exact_mod_cast hbound

/-- From the upper cut on, a value is no number of seconds of a duration. -/
theorem tooManySeconds_le_exactUnits (hdigits : digits ≠ 0) (hexponent : maxExponent ≤ exponent) :
    (tooManySeconds : ℚ) ≤ exactUnits digits exponent := by
  have hone : (1 : ℚ) ≤ digits := Nat.one_le_cast.mpr (Nat.pos_of_ne_zero hdigits)
  have hpow : (2 : ℚ) ^ 64 ≤ 10 ^ exponent :=
    calc (2 : ℚ) ^ 64 ≤ 10 ^ (20 : ℤ) := by norm_num
      _ ≤ 10 ^ exponent := zpow_le_zpow_right₀ (by norm_num) (le_trans (by decide) hexponent)
  have hle : (2 : ℚ) ^ 64 ≤ digits * 10 ^ exponent :=
    le_trans hpow (le_mul_of_one_le_left (zpow_nonneg (by norm_num) _) hone)
  rw [tooManySeconds, exactUnits, Nat.cast_mul, Nat.cast_pow, Nat.cast_ofNat]
  exact mul_le_mul_of_nonneg_right hle (Nat.cast_nonneg _)

/-! ## Rounding a decimal value -/

/-- The exponent with which a decimal value is rounded. -/
def cut (digits : Nat) (exponent : ℤ) : ℤ :=
  max (minExponent digits) (min exponent maxExponent)

theorem nearest_cut (digits : Nat) (exponent : ℤ) :
    Nearest OnGrid EvenSignificand (exactUnits digits (cut digits exponent))
      (ofDecimal digits exponent) := by
  unfold ofDecimal
  rw [← cut]
  cases cut digits exponent with
  | ofNat e =>
      have hnearest := nearest_nearest (digits * 10 ^ e) Nat.one_pos
      have hunits :
          exactUnits digits (Int.ofNat e) = (digits * 10 ^ e : Nat) * one / (1 : Nat) := by
        rw [exactUnits, Int.ofNat_eq_natCast, zpow_natCast]
        push_cast
        rw [div_one]
      rw [hunits]
      exact hnearest
  | negSucc e =>
      have hnearest := nearest_nearest digits (Nat.pow_pos (n := e + 1) (by decide : 0 < 10))
      have hunits : exactUnits digits (Int.negSucc e) = digits * one / (10 ^ (e + 1) : Nat) := by
        rw [exactUnits, zpow_negSucc, mul_right_comm, div_eq_mul_inv]
        push_cast
        rfl
      rw [hunits]
      exact hnearest

/-- Between the cuts, and for the value zero, a decimal value is rounded as it was written. -/
theorem nearest_ofDecimal (hcut : digits = 0 ∨ exponent ≤ maxExponent) :
    Nearest OnGrid EvenSignificand (exactUnits digits exponent) (ofDecimal digits exponent) := by
  have hnearest := nearest_cut digits exponent
  rcases hcut with rfl | hhigh
  · have hzero (e : ℤ) : exactUnits 0 e = 0 := by
      rw [exactUnits, Nat.cast_zero, zero_mul, zero_mul]
    rwa [hzero] at hnearest ⊢
  · rcases le_total exponent (minExponent digits) with hlow | hlow
    · have hcut : cut digits exponent = minExponent digits := by
        rw [cut, min_eq_left hhigh, max_eq_left hlow]
      have hzero (e : ℤ) (he : e ≤ minExponent digits) :
          Nearest OnGrid EvenSignificand (exactUnits digits e) 0 :=
        nearest_zero (exactUnits_nonneg digits e) (exactUnits_lt_half he)
      rw [hnearest.eq alternates (hzero _ hcut.le)]
      exact hzero exponent hlow
    · rwa [cut, min_eq_left hhigh, max_eq_right hlow] at hnearest

/-- Past the upper cut, a value is past all numbers of seconds of a duration before rounding and
after it. -/
theorem tooManySeconds_le_ofDecimal (hdigits : digits ≠ 0) (hcut : maxExponent < exponent) :
    tooManySeconds ≤ ofDecimal digits exponent := by
  refine (nearest_cut digits exponent).ge onGrid_tooManySeconds ?_
  refine tooManySeconds_le_exactUnits hdigits ?_
  rw [cut, min_eq_right hcut.le]
  exact le_max_right _ _

/-- A result below the end of the durations is the nearest magnitude. -/
theorem nearest_ofDecimal_of_lt (hlt : ofDecimal digits exponent < tooManySeconds) :
    Nearest OnGrid EvenSignificand (exactUnits digits exponent) (ofDecimal digits exponent) := by
  refine nearest_ofDecimal (or_iff_not_imp_left.mpr fun hdigits => le_of_not_gt fun hcut => ?_)
  exact absurd (tooManySeconds_le_ofDecimal hdigits hcut) (Nat.not_le_of_lt hlt)

/-- The nearest magnitude is the result, if it is below the end of the durations. -/
theorem eq_ofDecimal {units : Nat}
    (hunits : Nearest OnGrid EvenSignificand (exactUnits digits exponent) units)
    (hlt : units < tooManySeconds) : units = ofDecimal digits exponent := by
  refine hunits.eq alternates (nearest_ofDecimal (or_iff_not_imp_left.mpr fun hdigits =>
    le_of_not_gt fun hcut => ?_))
  have hle := hunits.ge onGrid_tooManySeconds (tooManySeconds_le_exactUnits hdigits hcut.le)
  exact absurd hle (Nat.not_le_of_lt hlt)

end Typewriter.Binary64

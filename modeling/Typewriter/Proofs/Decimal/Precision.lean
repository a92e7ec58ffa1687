import Mathlib.Algebra.Order.Archimedean.Basic
import Mathlib.Algebra.Order.Monoid.WithTop
import Mathlib.Order.WithBot
import Typewriter.Proofs.Decimal.Binary64

/-!
# Precision and range of binary64

Rounding to binary64 moves a magnitude by at most half the distance of the numbers around it.  That
is half a unit of `2 ^ -1074` for the smallest magnitudes, and otherwise no more than a part of
`2 ^ 53` (`abs_sub_le_half_or`).

`RoundsTo` gives the value of the nearest binary64, with its sign.  Rounding itself has no upper
end; a magnitude of `2 ^ 1024` or more stands for an infinity.
-/

namespace Typewriter.Binary64

variable {x : ℚ} {m e units : Nat} {negative : Bool}

/-! ## The error of rounding -/

theorem onGrid_mul (hm : m ≤ 2 ^ 53) (e : Nat) : OnGrid (m * 2 ^ e) := by
  rcases Nat.lt_or_eq_of_le hm with hlt | rfl
  · exact ⟨m, e, hlt, rfl⟩
  · exact ⟨2 ^ 52, e + 1, by decide, by ring⟩

/-- Whole numbers up to `2 ^ 53` are numbers of binary64. -/
theorem onGrid_mul_one (hm : m ≤ 2 ^ 53) : OnGrid (m * one) := by
  obtain ⟨n, -, hone⟩ := exists_one_eq
  rw [hone]
  exact onGrid_mul hm n

theorem exists_nearest (hx : 0 ≤ x) : ∃ units, Nearest OnGrid EvenSignificand x units := by
  have hnum : ((x.num.toNat : Nat) : ℚ) = x.num := by
    exact_mod_cast Int.toNat_of_nonneg (Rat.num_nonneg.mpr hx)
  have hnearest := nearest_mul_spacing x.num.toNat x.den_pos
  rw [hnum, Rat.num_div_den] at hnearest
  exact ⟨_, hnearest⟩

/-- Up to `2 ^ 53` steps of `2 ^ e` units, rounding moves by half a step at most. -/
theorem abs_sub_le_half_step (hx : 0 ≤ x) (hlt : x < 2 ^ 53 * 2 ^ e)
    (hunits : Nearest OnGrid EvenSignificand x units) : |x - units| ≤ 2 ^ e / 2 := by
  have hstep : (0 : ℚ) < 2 ^ e := by positivity
  obtain ⟨q, hq⟩ := exists_abs_sub_le_half (div_nonneg hx hstep.le)
  have hq53 : q ≤ 2 ^ 53 := by
    have hdiv : x / 2 ^ e < 2 ^ 53 := (div_lt_iff₀ hstep).mpr hlt
    have hhalf := (abs_le.mp hq).1
    have hsucc : (q : ℚ) < (2 ^ 53 + 1 : Nat) := by
      push_cast
      linarith
    exact Nat.le_of_lt_succ (Nat.cast_lt.mp hsucc)
  have hscale : x - (q * 2 ^ e : Nat) = (x / 2 ^ e - q) * 2 ^ e := by
    rw [sub_mul, div_mul_cancel₀ _ hstep.ne']
    push_cast
    rfl
  calc |x - units| ≤ |x - (q * 2 ^ e : Nat)| := hunits.le _ (onGrid_mul hq53 e)
    _ = |x / 2 ^ e - q| * 2 ^ e := by rw [hscale, abs_mul, abs_of_pos hstep]
    _ ≤ 1 / 2 * 2 ^ e := mul_le_mul_of_nonneg_right hq hstep.le
    _ = 2 ^ e / 2 := by ring

/-- Rounding moves by half a unit at most, or by a part of `2 ^ 53` at most. -/
theorem abs_sub_le_half_or (hx : 0 ≤ x) (hunits : Nearest OnGrid EvenSignificand x units) :
    x < 2 ^ 53 ∧ |x - units| ≤ 1 / 2 ∨ |x - units| ≤ x / 2 ^ 53 := by
  rcases lt_or_ge x (2 ^ 53) with hlt | hge
  · have hstep : x < 2 ^ 53 * 2 ^ 0 := by rwa [pow_zero, mul_one]
    have hhalf := abs_sub_le_half_step hx hstep hunits
    rw [pow_zero] at hhalf
    exact .inl ⟨hlt, hhalf⟩
  · -- The step is the greatest with at least `2 ^ 52` of it in the magnitude.
    have hone : 1 ≤ x / 2 ^ 52 := by
      rw [le_div_iff₀ (by positivity)]
      linarith
    obtain ⟨e, hle, hlt⟩ := exists_nat_pow_near hone one_lt_two
    rw [le_div_iff₀ (by positivity)] at hle
    rw [div_lt_iff₀ (by positivity), pow_succ] at hlt
    refine .inr ((abs_sub_le_half_step (e := e) hx (by linarith) hunits).trans ?_)
    rw [le_div_iff₀ (by positivity)]
    linarith

/-! ## Values -/

/-- The value of a binary64.  Both zeros have the same. -/
abbrev Value := WithBot (WithTop ℚ)

/-- A number as a value. -/
def ofRat (q : ℚ) : Value := ((q : WithTop ℚ) : WithBot (WithTop ℚ))

/-- The first magnitude that stands for an infinity. -/
def firstInfinite : Nat := Nat.pow 2 1024 * one

/-- The value of a sign and a magnitude. -/
def value (negative : Bool) (units : Nat) : Value :=
  if units < firstInfinite then
    ofRat (if negative then -(units / one) else units / one)
  else if negative then ⊥ else ⊤

/-- The value of the binary64 nearest to a number. -/
def RoundsTo (x : ℚ) (f : Value) : Prop :=
  ∃ units, Nearest OnGrid EvenSignificand (|x| * one) units ∧ f = value (x < 0) units

theorem one_cast_pos : (0 : ℚ) < one := Nat.cast_pos.mpr one_pos

theorem ofRat_lt_ofRat {q r : ℚ} : ofRat q < ofRat r ↔ q < r := by
  rw [ofRat, ofRat, WithBot.coe_lt_coe, WithTop.coe_lt_coe]

theorem ofRat_zero : ofRat 0 = 0 := by
  rw [ofRat, WithTop.coe_zero, WithBot.coe_zero]

theorem existsUnique_roundsTo (x : ℚ) : ∃! f, RoundsTo x f := by
  obtain ⟨units, hunits⟩ := exists_nearest (mul_nonneg (abs_nonneg x) one_cast_pos.le)
  refine ⟨value (x < 0) units, ⟨units, hunits, rfl⟩, ?_⟩
  rintro f ⟨other, hother, hf⟩
  rw [hf, hother.eq alternates hunits]

/-- As in `exists_one_eq`, the exponent stands behind a name. -/
theorem exists_firstInfinite_eq : ∃ n, n = 1024 ∧ firstInfinite = 2 ^ n * one := by
  refine ⟨1024, rfl, ?_⟩
  unfold firstInfinite
  generalize 1024 = n
  rw [Nat.pow_eq]

theorem tooManySeconds_le_firstInfinite : tooManySeconds ≤ firstInfinite := by
  obtain ⟨n, hn, hinfinite⟩ := exists_firstInfinite_eq
  rw [hinfinite]
  exact Nat.mul_le_mul_right one (Nat.pow_le_pow_right two_pos (by omega))

theorem tooManySeconds_pos : 0 < tooManySeconds := Nat.mul_pos (by decide) one_pos

theorem value_lt_zero_iff : value negative units < 0 ↔ negative = true ∧ units ≠ 0 := by
  have hdiv : (0 : ℚ) < units / one ↔ units ≠ 0 := by
    rw [div_pos_iff_of_pos_right one_cast_pos, Nat.cast_pos, Nat.pos_iff_ne_zero]
  unfold value
  split
  · rw [← ofRat_zero, ofRat_lt_ofRat]
    cases negative with
    | true =>
        rw [if_pos rfl, neg_lt_zero, hdiv]
        exact (and_iff_right rfl).symm
    | false =>
        have hnonneg : (0 : ℚ) ≤ units / one := div_nonneg (Nat.cast_nonneg units) one_cast_pos.le
        rw [if_neg Bool.false_ne_true]
        exact iff_of_false hnonneg.not_gt fun hsign => Bool.false_ne_true hsign.1
  · rename_i hinfinite
    cases negative with
    | true =>
        have hpos := Nat.lt_of_lt_of_le tooManySeconds_pos tooManySeconds_le_firstInfinite
        have hne : units ≠ 0 := by omega
        simp [hne]
    | false => simp

theorem value_zero (negative : Bool) : value negative 0 = 0 := by
  have hpos := Nat.lt_of_lt_of_le tooManySeconds_pos tooManySeconds_le_firstInfinite
  rw [value, if_pos hpos, Nat.cast_zero, zero_div, neg_zero, ite_self, ofRat_zero]

theorem value_lt_iff : value false units < ofRat (2 ^ 64) ↔ units < tooManySeconds := by
  have hle := tooManySeconds_le_firstInfinite
  unfold value
  split
  · rw [if_neg Bool.false_ne_true, ofRat_lt_ofRat, div_lt_iff₀ one_cast_pos,
      ← Nat.cast_lt (α := ℚ), tooManySeconds, Nat.cast_mul, Nat.cast_pow, Nat.cast_ofNat]
  · rw [if_neg Bool.false_ne_true]
    refine iff_of_false ?_ (by omega)
    exact not_lt_of_ge le_top

theorem zero_lt_end : 0 < ofRat (2 ^ 64) := by
  rw [← value_zero false, value_lt_iff]
  exact tooManySeconds_pos

/-- The values of the seconds of a duration. -/
theorem value_inRange_iff :
    0 ≤ value negative units ∧ value negative units < ofRat (2 ^ 64) ↔
      (negative = true → units = 0) ∧ units < tooManySeconds := by
  rw [← not_lt, value_lt_zero_iff, not_and, not_not]
  refine and_congr_right fun hsign => ?_
  cases negative with
  | false => exact value_lt_iff
  | true =>
      -- The negative zero has the value of the other.
      rw [hsign rfl, value_zero, ← value_zero false]
      exact value_lt_iff

end Typewriter.Binary64

import Mathlib.Algebra.Order.Field.Basic
import Mathlib.Algebra.Order.Field.Rat
import Mathlib.Algebra.Order.Floor.Semifield
import Mathlib.Algebra.Group.Nat.Even
import Mathlib.Data.Rat.Floor
import Mathlib.Tactic.Linarith
import Mathlib.Tactic.NormNum
import Typewriter.Decimal.Binary64

/-!
# Rounding to the nearest number of a grid

`Nearest grid even x n` says that `n` is the number of the grid that is nearest to `x`, and of two
that are equally near the even one.  What "even" means belongs to the grid; all that is needed of it
is that two even numbers have a number of the grid between them, and then there is at most one such
`n` (`Nearest.eq`), and rounding keeps the order (`Nearest.mono`).  The quotients of the library are
nearest among all numbers (`nearest_roundDiv`).
-/

namespace Typewriter

/-- The number of a grid that is nearest to `x`, a tie going to the even one. -/
structure Nearest (grid even : Nat → Prop) (x : ℚ) (n : Nat) : Prop where
  mem : grid n
  le : ∀ k, grid k → |x - n| ≤ |x - k|
  even : ∀ k, grid k → k ≠ n → |x - k| = |x - n| → even n

/-- Two even numbers have a number of the grid between them. -/
def Alternates (grid even : Nat → Prop) : Prop :=
  ∀ a b, even a → even b → a < b → ∃ c, grid c ∧ a < c ∧ c < b

/-- All numbers are on this grid. -/
def Anywhere (_ : Nat) : Prop := True

variable {grid even : Nat → Prop} {x y : ℚ} {n k : Nat}

theorem Nearest.not_lt (halt : Alternates grid even) (hn : Nearest grid even x n)
    (hk : Nearest grid even x k) : ¬ n < k := by
  intro hlt
  have htie : |x - n| = |x - k| := le_antisymm (hn.le k hk.mem) (hk.le n hn.mem)
  obtain ⟨c, hc, hnc, hck⟩ :=
    halt n k (hn.even k hk.mem hlt.ne' htie.symm) (hk.even n hn.mem hlt.ne htie) hlt
  have hle := hn.le c hc
  have hnc' : (n : ℚ) < c := Nat.cast_lt.mpr hnc
  have hck' : (c : ℚ) < k := Nat.cast_lt.mpr hck
  -- As both are equally near, `x` is in the middle, and so nearer to the number between them.
  rcases abs_eq_abs.mp htie with hsame | hmiddle
  · linarith
  · have hnear : |x - c| < |x - n| := by
      have hn : |x - n| = x - n := abs_of_nonneg (by linarith)
      rw [hn, abs_lt]
      constructor <;> linarith
    linarith

/-- At most one number is nearest. -/
theorem Nearest.eq (halt : Alternates grid even) (hn : Nearest grid even x n)
    (hk : Nearest grid even x k) : n = k :=
  Nat.le_antisymm (Nat.le_of_not_lt (hk.not_lt halt hn)) (Nat.le_of_not_lt (hn.not_lt halt hk))

/-- Rounding does not go down past a number of the grid. -/
theorem Nearest.ge (hn : Nearest grid even x n) (hk : grid k) (hle : (k : ℚ) ≤ x) : k ≤ n := by
  by_contra hlt
  have hnk : (n : ℚ) < k := Nat.cast_lt.mpr (Nat.lt_of_not_le hlt)
  have hnear := hn.le k hk
  rw [abs_of_nonneg (by linarith), abs_of_nonneg (by linarith)] at hnear
  linarith

/-- Rounding does not go up past a number of the grid. -/
theorem Nearest.le_of_le (hn : Nearest grid even x n) (hk : grid k) (hle : x ≤ k) : n ≤ k := by
  by_contra hlt
  have hkn : (k : ℚ) < n := Nat.cast_lt.mpr (Nat.lt_of_not_le hlt)
  have hnear := hn.le k hk
  rw [abs_of_nonpos (by linarith), abs_of_nonpos (by linarith)] at hnear
  linarith

/-- A number of the grid is nearest to itself. -/
theorem nearest_of_mem (hn : grid n) : Nearest grid even n n := by
  have hzero : |(n : ℚ) - n| = 0 := by rw [sub_self, abs_zero]
  refine ⟨hn, fun k _ => ?_, fun k _ hne htie => ?_⟩
  · rw [hzero]
    exact abs_nonneg _
  · rw [hzero, abs_eq_zero, sub_eq_zero, Nat.cast_inj] at htie
    exact absurd htie.symm hne

/-- Which of two numbers is nearer depends on the side of the middle. -/
theorem abs_sub_le_abs_sub_iff {a b : ℚ} :
    |x - a| ≤ |x - b| ↔ 0 ≤ (b - a) * (a + b - 2 * x) := by
  rw [← sq_le_sq, ← sub_nonneg]
  ring_nf

/-- Rounding keeps the order. -/
theorem Nearest.mono (halt : Alternates grid even) (hn : Nearest grid even x n)
    (hk : Nearest grid even y k) (hle : x ≤ y) : n ≤ k := by
  by_contra hlt
  have hkn : (k : ℚ) < n := Nat.cast_lt.mpr (Nat.lt_of_not_le hlt)
  -- The middle of the two is neither above `x` nor below `y`.
  have hx : k + n - 2 * x ≤ 0 := by
    have hnear := abs_sub_le_abs_sub_iff.mp (hn.le k hk.mem)
    rw [add_comm (n : ℚ)] at hnear
    exact nonpos_of_mul_nonneg_right hnear (sub_neg_of_lt hkn)
  have hy : 0 ≤ k + n - 2 * y :=
    nonneg_of_mul_nonneg_right (abs_sub_le_abs_sub_iff.mp (hk.le n hn.mem)) (sub_pos_of_lt hkn)
  obtain rfl : x = y := by linarith
  exact hlt (hn.eq halt hk).le

/-! ## Whole numbers -/

theorem alternates_anywhere : Alternates Anywhere Even := by
  intro a b ha hb hlt
  refine ⟨a + 1, trivial, Nat.lt_succ_self a, ?_⟩
  rw [Nat.even_iff] at ha hb
  omega

/-- What is at most a half away is nearest. -/
theorem nearest_of_abs_le_half (hle : |x - n| ≤ 1 / 2) (heven : |x - n| = 1 / 2 → Even n) :
    Nearest Anywhere Even x n := by
  have hfar {k : Nat} (hne : k ≠ n) : 1 - |x - n| ≤ |x - k| := by
    have hone : (1 : ℚ) ≤ |(k : ℚ) - n| := by
      have hint : (1 : ℤ) ≤ |(k : ℤ) - n| :=
        Int.one_le_abs (sub_ne_zero.mpr (by exact_mod_cast hne))
      exact_mod_cast hint
    have htriangle := abs_sub_le (k : ℚ) x n
    rw [abs_sub_comm (k : ℚ) x] at htriangle
    linarith
  refine ⟨trivial, fun k _ => ?_, fun k _ hne htie => heven ?_⟩
  · by_cases hne : k = n
    · rw [hne]
    · have := hfar hne
      linarith
  · have := hfar hne
    linarith

theorem exists_abs_sub_le_half (hx : 0 ≤ x) : ∃ q : Nat, |x - q| ≤ 1 / 2 := by
  have hnonneg : 0 ≤ x + 1 / 2 := by linarith
  have hle := Nat.floor_le hnonneg
  have hlt := Nat.lt_floor_add_one (x + 1 / 2)
  refine ⟨⌊x + 1 / 2⌋₊, ?_⟩
  rw [abs_le]
  constructor <;> linarith

/-- Rounding to whole numbers moves by a half at most. -/
theorem Nearest.abs_sub_le_half (hx : 0 ≤ x) (hn : Nearest Anywhere even x n) :
    |x - n| ≤ 1 / 2 := by
  obtain ⟨q, hq⟩ := exists_abs_sub_le_half hx
  exact (hn.le q trivial).trans hq

theorem nearest_roundDiv (num : Nat) {den : Nat} (hden : 0 < den) :
    Nearest Anywhere Even ((num : ℚ) / den) (roundDiv num den) := by
  have hpos : (0 : ℚ) < den := Nat.cast_pos.mpr hden
  have hnum : (num : ℚ) = den * (num / den : Nat) + (num % den : Nat) := by
    exact_mod_cast (Nat.div_add_mod num den).symm
  have hdiv : (num : ℚ) / den = (num / den : Nat) + ((num % den : Nat) : ℚ) / den := by
    rw [div_eq_iff hpos.ne', add_mul, div_mul_cancel₀ _ hpos.ne', mul_comm]
    exact hnum
  have hrem : (0 : ℚ) ≤ ((num % den : Nat) : ℚ) / den :=
    div_nonneg (Nat.cast_nonneg _) hpos.le
  have hrem' : ((num % den : Nat) : ℚ) / den < 1 := by
    rw [div_lt_one hpos]
    exact_mod_cast Nat.mod_lt num hden
  unfold roundDiv
  dsimp only
  split
  · rename_i hbelow
    have hhalf : ((num % den : Nat) : ℚ) / den < 1 / 2 := by
      rw [div_lt_div_iff₀ hpos two_pos]
      exact_mod_cast (by omega : num % den * 2 < 1 * den)
    have hdist : |(num : ℚ) / den - (num / den : Nat)| < 1 / 2 := by
      rw [hdiv, add_sub_cancel_left, abs_of_nonneg hrem]
      exact hhalf
    exact nearest_of_abs_le_half hdist.le fun htie => absurd htie hdist.ne
  · split
    · rename_i habove
      have hhalf : 1 / 2 < ((num % den : Nat) : ℚ) / den := by
        rw [div_lt_div_iff₀ two_pos hpos]
        exact_mod_cast (by omega : 1 * den < num % den * 2)
      have hdist : |(num : ℚ) / den - (num / den + 1 : Nat)| < 1 / 2 := by
        rw [hdiv, abs_lt]
        push_cast
        constructor <;> linarith
      exact nearest_of_abs_le_half hdist.le fun htie => absurd htie hdist.ne
    · rename_i hnotBelow hnotAbove
      have hhalf : ((num % den : Nat) : ℚ) / den = 1 / 2 := by
        rw [div_eq_div_iff hpos.ne' two_ne_zero]
        exact_mod_cast (by omega : num % den * 2 = 1 * den)
      refine nearest_of_abs_le_half ?_ fun _ => ?_
      · rw [hdiv, hhalf]
        rcases Nat.mod_two_eq_zero_or_one (num / den) with hparity | hparity <;>
          rw [hparity, abs_le] <;> push_cast <;> constructor <;> linarith
      · rw [Nat.even_iff]
        omega

end Typewriter

import Mathlib.Data.Int.Log
import Mathlib.Data.Rat.Floor
import Mathlib.Tactic.Linarith
import Mathlib.Tactic.NormNum

/-! JavaScript Numbers are IEEE 754 binary64 doubles, and `*` and `/` give
the double nearest the exact result, a tie going to the even significand
(ECMA-262, Number::multiply and Number::divide). A finite double is
`m * 2 ^ k` with `|m| < 2 ^ 53` and `-1074 ≤ k`.

`roundDouble x` rounds `x` to the grid of spacing `2 ^ spacing x` around it.
That is the nearest double (`roundDouble_nearest`), so it leaves doubles
alone (`roundDouble_of_isDouble`) and keeps the order (`roundDouble_mono`).
The exponent is not bounded above: the overflow to `Infinity`, from
`2 ^ 1024 - 2 ^ 970` on, is not modelled, and the results that use this
module are about values far below it. -/
namespace OvsFrontend.Binary64

/-- A finite double, the bound of the exponent above apart. -/
def IsDouble (d : ℚ) : Prop := ∃ m k : ℤ, |m| < 2 ^ 53 ∧ -1074 ≤ k ∧ d = m * 2 ^ k

/-- The exponent `k` of the spacing `2 ^ k` of the doubles around `x`: `e - 52`
for `2 ^ e ≤ |x| < 2 ^ (e + 1)`, and `-1074` among the subnormals. -/
def spacing (x : ℚ) : ℤ := max (Int.log 2 |x| - 52) (-1074)

/-- The integer nearest `x`, a tie going to the even one. -/
def roundEven (x : ℚ) : ℤ :=
  if x - ⌊x⌋ < 1 / 2 then ⌊x⌋
  else if 1 / 2 < x - ⌊x⌋ then ⌊x⌋ + 1
  else if ⌊x⌋ % 2 = 0 then ⌊x⌋ else ⌊x⌋ + 1

/-- `𝔽(x)`: the double nearest `x`, a tie going to the even significand. -/
def roundDouble (x : ℚ) : ℚ := roundEven (x / 2 ^ spacing x) * 2 ^ spacing x

/-! ## Rounding to the integers -/

/-- `roundEven x` is no farther from `x` than `⌊x⌋` and `⌊x⌋ + 1` are. -/
theorem roundEven_close (x : ℚ) :
    |(roundEven x : ℚ) - x| ≤ x - ⌊x⌋ ∧ |(roundEven x : ℚ) - x| ≤ ⌊x⌋ + 1 - x := by
  have low := Int.floor_le x
  have high := Int.lt_floor_add_one x
  unfold roundEven
  split_ifs <;> push_cast <;> constructor <;> rw [abs_le] <;> constructor <;> linarith

theorem roundEven_nearest (x : ℚ) (n : ℤ) : |(roundEven x : ℚ) - x| ≤ |n - x| := by
  obtain ⟨toFloor, toCeil⟩ := roundEven_close x
  rcases le_or_lt n ⌊x⌋ with below | above
  · have below : (n : ℚ) ≤ ⌊x⌋ := by exact_mod_cast below
    calc |(roundEven x : ℚ) - x| ≤ x - ⌊x⌋ := toFloor
      _ ≤ x - n := by linarith
      _ ≤ |n - x| := by rw [abs_sub_comm]; exact le_abs_self _
  · have above : (⌊x⌋ : ℚ) + 1 ≤ n := by exact_mod_cast above
    calc |(roundEven x : ℚ) - x| ≤ ⌊x⌋ + 1 - x := toCeil
      _ ≤ n - x := by linarith
      _ ≤ |n - x| := le_abs_self _

/-! ## Rounding to the doubles -/

private theorem two_zpow_pos (k : ℤ) : (0 : ℚ) < 2 ^ k := zpow_pos (by norm_num) k

/-- `roundDouble x` is the nearest point of its grid. -/
theorem roundDouble_grid (x : ℚ) (n : ℤ) : |roundDouble x - x| ≤ |n * 2 ^ spacing x - x| := by
  have scale : ∀ y : ℚ, y * 2 ^ spacing x - x = (y - x / 2 ^ spacing x) * 2 ^ spacing x :=
    fun y => by rw [sub_mul, div_mul_cancel₀ _ (two_zpow_pos _).ne']
  rw [roundDouble, scale, scale, abs_mul, abs_mul]
  exact mul_le_mul_of_nonneg_right (roundEven_nearest _ n) (abs_nonneg _)

/-- The power of two below `|x|` bounds it from below, and the next one from above. -/
theorem zpow_log_le_abs {x : ℚ} (nonzero : x ≠ 0) : (2 : ℚ) ^ Int.log 2 |x| ≤ |x| := by
  exact_mod_cast Int.zpow_log_le_self (b := 2) (by norm_num) (abs_pos.mpr nonzero)

theorem abs_lt_zpow_log (x : ℚ) : |x| < (2 : ℚ) ^ (Int.log 2 |x| + 1) := by
  exact_mod_cast Int.lt_zpow_succ_log_self (b := 2) (by norm_num) |x|

/-- The power of two below `|x|` is a point of the grid of `x`. -/
private theorem power_on_grid {x : ℚ} (normal : spacing x = Int.log 2 |x| - 52) :
    ((2 ^ 52 : ℤ) : ℚ) * 2 ^ spacing x = 2 ^ Int.log 2 |x| := by
  rw [Int.cast_pow, Int.cast_ofNat, ← zpow_natCast, ← zpow_add₀ two_ne_zero, normal]
  ring_nf

/-- `roundDouble x` is a nearest double to `x`. A double on the grid of `x` is
covered by `roundDouble_grid`; one on a finer grid is nearer zero than the
power of two below `|x|`, which is on the grid and at least as close. -/
theorem roundDouble_nearest (x : ℚ) {d : ℚ} (double : IsDouble d) :
    |roundDouble x - x| ≤ |d - x| := by
  obtain ⟨m, j, small, normal, rfl⟩ := double
  by_cases coarse : spacing x ≤ j
  · have onGrid : (m : ℚ) * 2 ^ j = ((m * 2 ^ (j - spacing x).toNat : ℤ) : ℚ) * 2 ^ spacing x := by
      push_cast
      rw [mul_assoc, ← zpow_natCast, ← zpow_add₀ two_ne_zero, Int.toNat_of_nonneg (by omega)]
      ring_nf
    rw [onGrid]
    exact roundDouble_grid x _
  by_cases zero : x = 0
  · subst zero
    simp [roundDouble, roundEven]
  have normalX : spacing x = Int.log 2 |x| - 52 := by unfold spacing at coarse ⊢; omega
  have power := zpow_log_le_abs zero
  have inside : |(m : ℚ) * 2 ^ j| < 2 ^ Int.log 2 |x| := by
    have smallQ : |(m : ℚ)| < 2 ^ 53 := by exact_mod_cast small
    calc |(m : ℚ) * 2 ^ j| = |(m : ℚ)| * 2 ^ j := by rw [abs_mul, abs_of_pos (two_zpow_pos j)]
      _ < 2 ^ 53 * 2 ^ j := mul_lt_mul_of_pos_right smallQ (two_zpow_pos j)
      _ = 2 ^ (53 + j) := by rw [zpow_add₀ two_ne_zero]; norm_num
      _ ≤ 2 ^ Int.log 2 |x| := zpow_le_zpow_right₀ (by norm_num) (by omega)
  have toPower : |roundDouble x - x| ≤ |x| - 2 ^ Int.log 2 |x| := by
    rcases le_or_lt 0 x with sign | sign
    · have positive : |x| = x := abs_of_nonneg sign
      have grid := roundDouble_grid x (2 ^ 52)
      rw [power_on_grid normalX, abs_of_nonpos (by linarith : (2 : ℚ) ^ Int.log 2 |x| - x ≤ 0)] at grid
      linarith
    · have negative : |x| = -x := abs_of_neg sign
      have grid := roundDouble_grid x (-2 ^ 52)
      rw [Int.cast_neg, neg_mul, power_on_grid normalX,
        abs_of_nonneg (by linarith : (0 : ℚ) ≤ -2 ^ Int.log 2 |x| - x)] at grid
      linarith
  calc |roundDouble x - x| ≤ |x| - 2 ^ Int.log 2 |x| := toPower
    _ ≤ |x| - |(m : ℚ) * 2 ^ j| := by linarith
    _ ≤ |(m : ℚ) * 2 ^ j - x| := by rw [abs_sub_comm]; exact abs_sub_abs_le_abs_sub _ _

/-- `roundDouble x` is a double: the integer it scales is at most `2 ^ 53`,
and `2 ^ 53` on one grid is `2 ^ 52` on the next. -/
theorem isDouble_roundDouble (x : ℚ) : IsDouble (roundDouble x) := by
  set k := spacing x
  have scaled : |x / 2 ^ k| < 2 ^ 53 := by
    rw [abs_div, abs_of_pos (two_zpow_pos k), div_lt_iff₀ (two_zpow_pos k)]
    calc |x| < 2 ^ (Int.log 2 |x| + 1) := abs_lt_zpow_log x
      _ ≤ 2 ^ ((53 : ℤ) + k) := zpow_le_zpow_right₀ (by norm_num) (by simp only [k, spacing]; omega)
      _ = 2 ^ 53 * 2 ^ k := by rw [zpow_add₀ two_ne_zero]; norm_num
  obtain ⟨toFloor, toCeil⟩ := roundEven_close (x / 2 ^ k)
  have near : |(roundEven (x / 2 ^ k) : ℚ) - x / 2 ^ k| ≤ 1 / 2 := by linarith
  have bound : |roundEven (x / 2 ^ k)| ≤ 2 ^ 53 := by
    have : |(roundEven (x / 2 ^ k) : ℚ)| < 2 ^ 53 + 1 := by
      linarith [abs_sub_abs_le_abs_sub (roundEven (x / 2 ^ k) : ℚ) (x / 2 ^ k)]
    have : |roundEven (x / 2 ^ k)| < 2 ^ 53 + 1 := by exact_mod_cast this
    omega
  have floorK : -1074 ≤ k := le_max_right _ _
  rcases bound.lt_or_eq with below | top
  · exact ⟨_, k, below, floorK, rfl⟩
  · refine ⟨if 0 ≤ roundEven (x / 2 ^ k) then 2 ^ 52 else -2 ^ 52, k + 1, by split_ifs <;> norm_num,
      by omega, ?_⟩
    rw [roundDouble, zpow_add₀ two_ne_zero, zpow_one]
    rcases abs_eq (by norm_num : (0 : ℤ) ≤ 2 ^ 53) |>.mp top with plus | minus
    · rw [if_pos (by omega), plus]
      push_cast
      ring
    · rw [if_neg (by omega), minus]
      push_cast
      ring

theorem roundDouble_of_isDouble {d : ℚ} (double : IsDouble d) : roundDouble d = d := by
  have := roundDouble_nearest d double
  rwa [sub_self, abs_zero, abs_nonpos_iff, sub_eq_zero] at this

/-- Of two doubles, the one nearer `x` lies on the side of their midpoint where `x` is. -/
private theorem midpoint_le {a b x : ℚ} (order : b < a) (closer : |a - x| ≤ |b - x|) : a + b ≤ 2 * x := by
  rcases abs_cases (a - x) with ⟨first, _⟩ | ⟨first, _⟩ <;>
    rcases abs_cases (b - x) with ⟨second, _⟩ | ⟨second, _⟩ <;> linarith

private theorem le_midpoint {a b x : ℚ} (order : b < a) (closer : |b - x| ≤ |a - x|) : 2 * x ≤ a + b := by
  rcases abs_cases (a - x) with ⟨first, _⟩ | ⟨first, _⟩ <;>
    rcases abs_cases (b - x) with ⟨second, _⟩ | ⟨second, _⟩ <;> linarith

/-- Rounding keeps the order. -/
theorem roundDouble_mono {x y : ℚ} (le : x ≤ y) : roundDouble x ≤ roundDouble y := by
  rcases le.eq_or_lt with same | lt
  · rw [same]
  by_contra! above
  have forX := midpoint_le above (roundDouble_nearest x (isDouble_roundDouble y))
  have forY := le_midpoint above (roundDouble_nearest y (isDouble_roundDouble x))
  linarith

/-- Every integer below `2 ^ 53` is a double. -/
theorem roundDouble_intCast {n : ℤ} (small : |n| < 2 ^ 53) : roundDouble n = n :=
  roundDouble_of_isDouble ⟨n, 0, small, by norm_num, by simp⟩

/-- A bound that is an integer below `2 ^ 53` bounds the rounded value too. -/
theorem abs_roundDouble_le {x : ℚ} {bound : ℤ} (within : |x| ≤ bound) (small : bound < 2 ^ 53) :
    |roundDouble x| ≤ bound := by
  have nonneg : 0 ≤ bound := by exact_mod_cast (abs_nonneg x).trans within
  rw [abs_le] at within ⊢
  have top := roundDouble_mono within.2
  have bottom := roundDouble_mono within.1
  rw [roundDouble_intCast (by rw [abs_of_nonneg nonneg]; exact small)] at top
  rw [← Int.cast_neg, roundDouble_intCast (by rw [abs_neg, abs_of_nonneg nonneg]; exact small),
    Int.cast_neg] at bottom
  exact ⟨bottom, top⟩

/-- Within `2 ^ e`, above the subnormals, the rounding error is at most half
the spacing `2 ^ (e - 52)` there. -/
theorem abs_roundDouble_sub_le {x : ℚ} {e : ℤ} (within : |x| ≤ 2 ^ e) (normal : -1022 ≤ e) :
    |roundDouble x - x| ≤ 2 ^ (e - 53) := by
  by_cases zero : x = 0
  · subst zero
    simp [roundDouble, roundEven, (two_zpow_pos _).le]
  have logLe : Int.log 2 |x| ≤ e := by
    have below : |x| < (2 : ℚ) ^ (e + 1) :=
      within.trans_lt (zpow_lt_zpow_right₀ (by norm_num) (by omega))
    have := (Int.lt_zpow_iff_log_lt (b := 2) (by norm_num) (abs_pos.mpr zero)).mp (by exact_mod_cast below)
    omega
  set k := spacing x
  obtain ⟨toFloor, toCeil⟩ := roundEven_close (x / 2 ^ k)
  have half : |(roundEven (x / 2 ^ k) : ℚ) - x / 2 ^ k| * 2 ^ k ≤ 1 / 2 * 2 ^ k :=
    mul_le_mul_of_nonneg_right (by linarith) (two_zpow_pos k).le
  have scale : roundDouble x - x = ((roundEven (x / 2 ^ k) : ℚ) - x / 2 ^ k) * 2 ^ k := by
    rw [roundDouble, sub_mul, div_mul_cancel₀ _ (two_zpow_pos _).ne']
  calc |roundDouble x - x| = |(roundEven (x / 2 ^ k) : ℚ) - x / 2 ^ k| * 2 ^ k := by
        rw [scale, abs_mul, abs_of_pos (two_zpow_pos k)]
    _ ≤ 1 / 2 * 2 ^ k := half
    _ ≤ 1 / 2 * 2 ^ (e - 52) :=
        mul_le_mul_of_nonneg_left (zpow_le_zpow_right₀ (by norm_num) (by simp only [k, spacing]; omega))
          (by norm_num)
    _ = 2 ^ (e - 53) := by
        rw [show e - 52 = (e - 53) + 1 by ring, zpow_add₀ two_ne_zero, zpow_one]
        ring

end OvsFrontend.Binary64

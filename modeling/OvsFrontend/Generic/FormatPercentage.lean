import OvsFrontend.Generic.Binary64
import OvsFrontend.Generic.FormatBytes
import OvsFrontend.Generic.FormatNumber

/-! `formatFunction.formatPercentage(value, allowNan)` (generic.js) prints a
fraction as a percentage. It computes `Math.round(value * 10000) / 100`, the
percentage rounded to hundredths, and hands it to `formatNumber`, which
rounds it once more, to an integer, with `this.round(value)`.

Rounding twice is not rounding once. With `r` the count of hundredths
`Math.round(value * 10000)`, the printed integer is `⌊(r + 50) / 100⌋`: the
hundredths are rounded half up, and then the integer
(`formatPercentage_rounds_twice`). So a percentage whose fractional part lies
in `[0.495, 0.5)` is carried up to the half by the first rounding and up to
the next integer by the second.

`value * 10000` and the quotient `/ 100` are doubles (`Binary64`). The
quotient of a count of hundredths below `2 ^ 46` is never rounded across a
half, so the second rounding is that of the exact quotient
(`mathRound_roundDouble_hundredths`). -/
namespace OvsFrontend.FormatPercentage

open OvsFrontend.Binary64 OvsFrontend.FormatBytes OvsFrontend.FormatNumber

/-- `formatFunction.formatPercentage(value, allowNan)`. A value that `isNaN`
holds of is `none`, and `allowNan` is its truthiness. `.error` is the `Error`
thrown, and the outer `none` is a `formatNumber` loop that did not end within
`fuel` tests. The `mathRound` applied before `formatNumber` is that function's
own `this.round(value)`. -/
def formatPercentage (separator : String) (fuel : Nat) (value : Option ℚ) (allowNan : Bool) :
    Option (Except String String) :=
  match value with
  | none => some (if allowNan then .ok "0 %" else .error "Non-numeric value passed to format")
  | some value =>
    let value : ℚ := roundDouble (mathRound (roundDouble (value * 10000)) / 100)
    (formatNumber separator fuel (some (mathRound value))).map fun text =>
      .ok (text.getD "undefined" ++ " %")

/-- `Math.round` keeps an integer bound on the absolute value. -/
theorem abs_mathRound_le {x : ℚ} {bound : ℤ} (within : |x| ≤ bound) : |mathRound x| ≤ bound := by
  rw [abs_le] at within ⊢
  exact ⟨Int.le_floor.mpr (by push_cast; linarith), mathRound_le_of_le within.2⟩

/-- A count `r` of hundredths below `2 ^ 46` rounds to the integer
`⌊(r + 50) / 100⌋` though the quotient `r / 100` is first rounded to a double:
`r / 100` is a half or at least `1 / 100` away from one, and the double
nearest it is within `2 ^ -13`. -/
theorem mathRound_roundDouble_hundredths {r : ℤ} (small : |r| ≤ 2 ^ 46) :
    mathRound (roundDouble (r / 100)) = (r + 50) / 100 := by
  have smallQ : |(r : ℚ)| ≤ 2 ^ 46 := by exact_mod_cast small
  rw [abs_le] at small
  have low : 100 * ((r + 50) / 100) - 50 ≤ r := by omega
  have high : r ≤ 100 * ((r + 50) / 100) + 49 := by omega
  have lowQ : (((2 * ((r + 50) / 100) - 1 : ℤ) : ℚ) * 2 ^ (-1 : ℤ)) ≤ r / 100 := by
    have : ((100 * ((r + 50) / 100) - 50 : ℤ) : ℚ) ≤ r := by exact_mod_cast low
    push_cast at this ⊢
    rw [zpow_neg_one]
    linarith
  have highQ : ((r : ℤ) : ℚ) ≤ 100 * ((r + 50) / 100 : ℤ) + 49 := by exact_mod_cast high
  -- The half below `r / 100` is a double, so rounding does not go under it.
  have above : (((2 * ((r + 50) / 100) - 1 : ℤ) : ℚ) * 2 ^ (-1 : ℤ)) ≤ roundDouble (r / 100) :=
    (roundDouble_of_isDouble ⟨_, -1, by rw [abs_lt]; omega, by norm_num, rfl⟩).symm.le.trans
      (roundDouble_mono lowQ)
  have close := abs_roundDouble_sub_le (x := r / 100) (e := 40) (by
    rw [abs_div, abs_of_pos (by norm_num : (0 : ℚ) < 100)]
    norm_num
    linarith) (by norm_num)
  rw [abs_le] at close
  norm_num at close
  rw [mathRound, Int.floor_eq_iff]
  push_cast at above ⊢
  rw [zpow_neg_one] at above
  constructor <;> linarith

/-- For a value of magnitude at most `2 ^ 32`, `formatPercentage` prints
`⌊(r + 50) / 100⌋`, where `r = Math.round(value * 10000)` of the product
rounded to a double: the percentage is rounded half up to hundredths, and that
result again, half up, to an integer. -/
theorem formatPercentage_rounds_twice (separator : String) (fuel : Nat) (allowNan : Bool)
    (value : ℚ) (bounded : |value| ≤ 2 ^ 32) :
    formatPercentage separator fuel (some value) allowNan =
      (formatNumber separator fuel (some ((mathRound (roundDouble (value * 10000)) + 50) / 100))).map
        fun text => .ok (text.getD "undefined" ++ " %") := by
  have product : |value * 10000| ≤ ((2 ^ 46 : ℤ) : ℚ) := by
    rw [abs_mul, abs_of_pos (by norm_num : (0 : ℚ) < 10000)]
    push_cast
    linarith
  have small := abs_mathRound_le (abs_roundDouble_le product (by norm_num))
  rw [formatPercentage, mathRound_roundDouble_hundredths small]

theorem formatPercentage_rounds_twice_on_share :
    |(1495 / 100000 : ℚ)| ≤ 2 ^ 32 ∧
      formatPercentage "," 10 (some (1495 / 100000)) false =
        (formatNumber "," 10 (some ((mathRound (roundDouble (1495 / 100000 * 10000)) + 50) / 100))).map
          fun text => .ok (text.getD "undefined" ++ " %") :=
  ⟨by rw [abs_le]; norm_num, formatPercentage_rounds_twice "," 10 false _ (by rw [abs_le]; norm_num)⟩

end OvsFrontend.FormatPercentage

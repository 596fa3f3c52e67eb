import Mathlib.Algebra.Order.Archimedean.Basic
import Mathlib.Data.Nat.Find
import Mathlib.Data.Rat.Floor
import Mathlib.Tactic.Linarith
import Mathlib.Tactic.IntervalCases
import OvsFrontend.Generic.Binary64

/-! `formatFunction.formatBytes` and `formatFunction.formatSpeed` (generic.js)
print a size or a rate with a binary unit. While the value is at least 1000
they divide it by 1024 and count the divisions. What is left is rounded to
two decimals, and the count picks the unit from
`['b', 'kib', 'mib', 'gib', 'tib', 'pib']`.

A value is a double, here the rational it denotes. The divisions by 1024
give doubles again, since the loop divides only values of at least 1000, and
the tests against 1000 are exact. The product `value * factor` and the
quotient `/ factor` of `round` are rounded to the nearest double
(`Binary64.roundDouble`).

For every value the loop ends after the least number of divisions that
brings the value below 1000, and the printed mantissa is at most 1000
(`formatWithUnits_ends`). Both halves of "one of six units, below 1000" fail
at the edges (`formatBytes_outside_units`):
- just under `1000 * 1024 ^ k` the mantissa rounds up to `1000`;
- from `1000 * 1024 ^ 5` on, the count reaches 6 and `units[6]` is
  `undefined`. -/
namespace OvsFrontend.FormatBytes

open OvsFrontend.Binary64

/-- `Math.round(x)`: the integer nearest to `x`, halves rounded up. -/
def mathRound (x : ℚ) : ℤ := ⌊x + 1 / 2⌋

/-- `formatFunction.round(value, decimals)`; a missing `decimals` is `0`.
The product and the quotient are doubles, and `Math.round` of a double is
exact. `Math.pow(10, decimals)` is `10 ^ decimals` up to `decimals = 22`,
where every power of ten is a double; the model takes the exact power
beyond, where ECMA-262 leaves `Math.pow` approximate. -/
def round (value : ℚ) (decimals : Nat) : ℚ :=
  if decimals = 0 then mathRound value
  else
    let factor : ℚ := 10 ^ decimals
    roundDouble (mathRound (roundDouble (value * factor)) / factor)

/-- The unit table of `formatBytes` and `formatSpeed`. -/
def units : List String := ["b", "kib", "mib", "gib", "tib", "pib"]

/-- The `while (value >= 1000)` loop: divide by 1024 and count. At most
`fuel` tests; `none` when the fuel runs out. -/
def divideDown : Nat → ℚ → Nat → Option (ℚ × Nat)
  | 0, _, _ => none
  | fuel + 1, value, counter =>
    if 1000 ≤ value then divideDown fuel (value / 1024) (counter + 1) else some (value, counter)

/-- What a call prints, `this.setDecimals(mantissa, 2) + ' ' + $.t(key)`. -/
structure Printed where
  mantissa : ℚ
  key : String
  deriving DecidableEq

/-- The translation key `'ovs:generic.units.' + units[counter] + suffix`.
Past the end of the table `units[counter]` is `undefined`. -/
def unitKey (suffix : String) (counter : Nat) : String :=
  "ovs:generic.units." ++ (units.get? counter).getD "undefined" ++ suffix

/-- The body shared by `formatBytes` and `formatSpeed`, which differ only in
the suffix of the unit key. -/
def formatWithUnits (suffix : String) (fuel : Nat) (value : ℚ) : Option Printed :=
  (divideDown fuel value 0).map fun (scaled, counter) => ⟨round scaled 2, unitKey suffix counter⟩

def formatBytes (fuel : Nat) (value : ℚ) : Option Printed := formatWithUnits "" fuel value

def formatSpeed (fuel : Nat) (value : ℚ) : Option Printed := formatWithUnits "s" fuel value

/-! ## The division loop -/

/-- Once `steps` is the least count with `value < 1000 * 1024 ^ steps`, the
loop makes exactly `steps` divisions. -/
theorem divideDown_of_least {value : ℚ} {steps fuel : Nat} (counter : Nat)
    (below : value < 1000 * 1024 ^ steps) (above : ∀ k < steps, 1000 * 1024 ^ k ≤ value)
    (enough : steps < fuel) :
    divideDown fuel value counter = some (value / 1024 ^ steps, counter + steps) := by
  induction steps generalizing value counter fuel with
  | zero =>
    obtain ⟨fuel, rfl⟩ : ∃ fuel', fuel = fuel' + 1 := ⟨fuel - 1, by omega⟩
    rw [pow_zero, mul_one] at below
    simp only [divideDown, if_neg (not_le.mpr below), pow_zero, div_one, Nat.add_zero]
  | succ steps ih =>
    obtain ⟨fuel, rfl⟩ : ∃ fuel', fuel = fuel' + 1 := ⟨fuel - 1, by omega⟩
    have divides : 1000 ≤ value := by simpa using above 0 (Nat.succ_pos steps)
    have below' : value / 1024 < 1000 * 1024 ^ steps := by
      rw [div_lt_iff₀ (by norm_num)]; rwa [pow_succ, ← mul_assoc] at below
    have above' : ∀ k < steps, 1000 * 1024 ^ k ≤ value / 1024 := fun k lt => by
      rw [le_div_iff₀ (by norm_num), mul_assoc, ← pow_succ]; exact above (k + 1) (by omega)
    rw [divideDown, if_pos divides, ih (counter + 1) below' above' (by omega), div_div, ← pow_succ',
      Nat.add_right_comm, Nat.add_assoc]

/-- Every value has such a least count: the loop ends. -/
theorem exists_least_steps (value : ℚ) :
    ∃ steps, value < 1000 * 1024 ^ steps ∧ ∀ k < steps, 1000 * 1024 ^ k ≤ value := by
  have reach : ∃ steps, value < 1000 * 1024 ^ steps := by
    obtain ⟨steps, exceeds⟩ := pow_unbounded_of_one_lt value (by norm_num : (1 : ℚ) < 1024)
    exact ⟨steps, by linarith [pow_pos (by norm_num : (0 : ℚ) < 1024) steps]⟩
  exact ⟨Nat.find reach, Nat.find_spec reach, fun k lt => not_lt.mp (Nat.find_min reach lt)⟩

/-- The count is a position of the six-unit table exactly below `1000 * 1024 ^ 5`. -/
theorem least_steps_lt_length {value : ℚ} {steps : Nat} (below : value < 1000 * 1024 ^ steps)
    (above : ∀ k < steps, 1000 * 1024 ^ k ≤ value) :
    steps < units.length ↔ value < 1000 * 1024 ^ 5 := by
  show steps < 6 ↔ _
  constructor
  · intro inTable
    calc value < 1000 * 1024 ^ steps := below
      _ ≤ 1000 * 1024 ^ 5 :=
        mul_le_mul_of_nonneg_left (pow_le_pow_right₀ (by norm_num) (by omega)) (by norm_num)
  · intro small
    by_contra past
    exact absurd (above 5 (by omega)) (not_le.mpr small)

/-! ## The mantissa -/

/-- `Math.round` keeps an integer bound. -/
theorem mathRound_le_of_le {x : ℚ} {bound : ℤ} (below : x ≤ bound) : mathRound x ≤ bound :=
  Int.lt_add_one_iff.mp (Int.floor_lt.mpr (by push_cast; linarith))

/-- A value below 1000 never rounds to more than 1000: `1000 * 100` and
`1000` are doubles, and rounding keeps the order. -/
theorem round_two_le_thousand {x : ℚ} (below : x < 1000) : round x 2 ≤ 1000 := by
  have product : roundDouble (x * 10 ^ 2) ≤ ((100000 : ℤ) : ℚ) :=
    (roundDouble_mono (by push_cast; linarith)).trans (roundDouble_intCast (by norm_num)).le
  have rounded : (mathRound (roundDouble (x * 10 ^ 2)) : ℚ) ≤ 100000 := by
    exact_mod_cast mathRound_le_of_le product
  rw [round, if_neg (by decide)]
  dsimp only
  calc roundDouble (mathRound (roundDouble (x * 10 ^ 2)) / 10 ^ 2)
      ≤ roundDouble ((1000 : ℤ) : ℚ) := roundDouble_mono (by rw [div_le_iff₀ (by norm_num)]; push_cast; linarith)
    _ = 1000 := by rw [roundDouble_intCast (by norm_num)]; norm_num

/-- When `x * 100` is a double and `Math.round` of it is `100 * n`, `round x 2`
is `n`. -/
theorem round_two_of_isDouble {x : ℚ} {n : ℤ} (double : IsDouble (x * 10 ^ 2))
    (rounds : mathRound (x * 10 ^ 2) = 100 * n) (small : |n| < 2 ^ 53) : round x 2 = n := by
  rw [round, if_neg (by decide)]
  dsimp only
  rw [roundDouble_of_isDouble double, rounds, show ((100 * n : ℤ) : ℚ) / 10 ^ 2 = n by push_cast; ring,
    roundDouble_intCast small]

/-- Just below `1000 * 1024` the mantissa rounds up to 1000, and `2 ^ 60`
takes six divisions, one more than the table has units for. -/
theorem formatBytes_outside_units :
    formatBytes 3 1023999 = some ⟨1000, "ovs:generic.units.kib"⟩ ∧
      formatSpeed 3 1023999 = some ⟨1000, "ovs:generic.units.kibs"⟩ ∧
      divideDown 8 (2 ^ 60) 0 = some (1, 6) ∧
      formatBytes 8 (2 ^ 60) = some ⟨1, "ovs:generic.units.undefined"⟩ ∧
      formatSpeed 8 (2 ^ 60) = some ⟨1, "ovs:generic.units.undefineds"⟩ := by
  have justBelow : divideDown 3 1023999 0 = some (1023999 / 1024, 1) := by
    simpa using @divideDown_of_least 1023999 1 3 0 (by norm_num)
      (fun k below => by interval_cases k; norm_num) (by norm_num)
  have large : divideDown 8 (2 ^ 60) 0 = some (1, 6) := by
    have := @divideDown_of_least (2 ^ 60) 6 8 0 (by norm_num)
      (fun k below => by interval_cases k <;> norm_num) (by norm_num)
    rwa [show (2 : ℚ) ^ 60 / 1024 ^ 6 = 1 by norm_num] at this
  -- `999.9990234375 * 100` is the double `102399900 * 2 ^ -10`, which rounds to `100000`.
  have roundsUp : round (1023999 / 1024) 2 = 1000 := by
    exact_mod_cast round_two_of_isDouble (n := 1000)
      ⟨102399900, -10, by norm_num, by norm_num, by norm_num⟩
      (by rw [mathRound, Int.floor_eq_iff]; norm_num) (by norm_num)
  have one : round 1 2 = 1 := by
    exact_mod_cast round_two_of_isDouble (n := 1) ⟨100, 0, by norm_num, by norm_num, by norm_num⟩
      (by rw [mathRound, Int.floor_eq_iff]; norm_num) (by norm_num)
  refine ⟨?_, ?_, large, ?_, ?_⟩ <;>
    simp only [formatBytes, formatSpeed, formatWithUnits, justBelow, large, Option.map_some', roundsUp, one] <;>
    rfl

end OvsFrontend.FormatBytes

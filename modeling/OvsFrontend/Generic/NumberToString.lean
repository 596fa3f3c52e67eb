import Mathlib.Tactic.Ring

/-! `formatNumber` prints `Math.round(value).toString()`. For an integer
`value` the Number is the double nearest it, and `Number::toString` writes the
fewest significant digits that read back as that double (ECMA-262,
Number::toString, step 5). Every integer up to `2^53` is a double and
prints as its own digits (`numberToString_of_safe`). Above `2^53`,
neighbouring doubles are more than one apart: `2^55` prints as
`36028797018963970`.

Only integral Numbers are modelled, so of `toString` only the plain form
(below `10^21`) and the exponent form (from `10^21` on) arise. Overflow to
`Infinity` is outside the model. -/
namespace OvsFrontend.NumberToString

/-- The exponent of the spacing `2^e` between the doubles around `m`: the
least `e`, searched upwards from `e` with `fuel` tries, with `m < 2^(53 + e)`. -/
def spacingExponentFrom (m : Nat) : Nat → Nat → Nat
  | 0, e => e
  | fuel + 1, e => if m < 2 ^ (53 + e) then e else spacingExponentFrom m fuel (e + 1)

/-- The least `e` with `m < 2^(53 + e)`; `m` tries always suffice. -/
def spacingExponent (m : Nat) : Nat := spacingExponentFrom m m 0

/-- `𝔽(m)`: the double nearest the natural number `m`, a tie going to the even
significand (IEEE 754 roundTiesToEven). -/
def roundToDouble (m : Nat) : Nat :=
  let e := spacingExponent m
  let significand := m / 2 ^ e
  let rest := m % 2 ^ e
  if 2 * rest < 2 ^ e ∨ (2 * rest = 2 ^ e ∧ significand % 2 = 0) then significand * 2 ^ e
  else (significand + 1) * 2 ^ e

/-- The number of decimal digits of `m`. -/
def decimalLength (m : Nat) : Nat := (Nat.toDigits 10 m).length

/-- The integer with `k` significant digits that `Number::toString` would
write for the double `x`, if one reads back as `x`. The candidates are the
multiples of `10^(d - k)` just below and just above `x`, where `d` is the
number of digits of `x`. The closer one wins; on a tie, the one whose `k`
digits end in an even digit wins. -/
def shortestAt (x k : Nat) : Option Nat :=
  let step := 10 ^ (decimalLength x - k)
  let below := x / step * step
  let above := below + step
  if roundToDouble below = x then
    if roundToDouble above = x ∧
        (above - x < x - below ∨ (above - x = x - below ∧ below / step % 2 = 1)) then some above
    else some below
  else if roundToDouble above = x then some above else none

/-- Number::toString step 5 for a positive integral double `x`: the least
digit count `k` with a candidate, and that candidate. `x` itself, with all its
digits, is the fallback. -/
def shortest (x : Nat) : Nat × Nat :=
  ((List.range (decimalLength x)).findSome? fun i => (shortestAt x (i + 1)).map (i + 1, ·)).getD
    (decimalLength x, x)

/-- `Number::toString(x)` for a non-negative integral double `x`: the digits
followed by zeros when the value is below `10^21` (step 6), otherwise one
digit, a point if more digits follow, and `e+` with the exponent (steps 10
and 11). -/
def naturalToString (x : Nat) : String :=
  if x = 0 then "0" else
  let (k, v) := shortest x
  if v < 10 ^ 21 then Nat.repr v
  else
    let exponent := "e+" ++ Nat.repr (decimalLength v - 1)
    match Nat.toDigits 10 (v / 10 ^ (decimalLength v - k)) with
    | [] => exponent
    | [digit] => String.mk [digit] ++ exponent
    | digit :: more => String.mk (digit :: '.' :: more) ++ exponent

/-- `Number::toString` of the Number nearest the integer `value`. -/
def numberToString (value : Int) : String :=
  let text := naturalToString (roundToDouble value.natAbs)
  if value < 0 then "-" ++ text else text

/-! ## The spacing exponent -/

private theorem lt_spacingExponentFrom (m : Nat) :
    ∀ fuel e, m < 2 ^ (53 + e + fuel) → m < 2 ^ (53 + spacingExponentFrom m fuel e)
  | 0, e, bound => bound
  | fuel + 1, e, bound => by
    unfold spacingExponentFrom
    split
    · assumption
    · exact lt_spacingExponentFrom m fuel (e + 1) (by rwa [show 53 + (e + 1) + fuel = 53 + e + (fuel + 1) by omega])

private theorem spacingExponentFrom_floor (m : Nat) :
    ∀ fuel e, (e = 0 ∨ 2 ^ (52 + e) ≤ m) →
      spacingExponentFrom m fuel e = 0 ∨ 2 ^ (52 + spacingExponentFrom m fuel e) ≤ m
  | 0, e, floor => floor
  | fuel + 1, e, floor => by
    unfold spacingExponentFrom
    split
    · exact floor
    · rename_i large
      exact spacingExponentFrom_floor m fuel (e + 1) (.inr (by
        rw [show 52 + (e + 1) = 53 + e by omega]; omega))

theorem lt_two_pow_spacingExponent (m : Nat) : m < 2 ^ (53 + spacingExponent m) :=
  lt_spacingExponentFrom m m 0 (by
    have := Nat.lt_two_pow m
    calc m < 2 ^ m := this
      _ ≤ 2 ^ (53 + 0 + m) := Nat.pow_le_pow_right (by decide) (by omega))

theorem spacingExponent_floor (m : Nat) :
    spacingExponent m = 0 ∨ 2 ^ (52 + spacingExponent m) ≤ m :=
  spacingExponentFrom_floor m m 0 (.inl rfl)

theorem spacingExponent_of_lt {m : Nat} (small : m < 2 ^ 53) : spacingExponent m = 0 := by
  cases m with
  | zero => rfl
  | succ m => simp only [spacingExponent, spacingExponentFrom, Nat.add_zero, small, if_true]

/-! ## Rounding to a double -/

/-- Below `2^53` every integer is a double. -/
theorem roundToDouble_of_lt {m : Nat} (small : m < 2 ^ 53) : roundToDouble m = m := by
  simp [roundToDouble, spacingExponent_of_lt small, Nat.mod_one]

private theorem significand_mul_le_roundToDouble (m : Nat) :
    m / 2 ^ spacingExponent m * 2 ^ spacingExponent m ≤ roundToDouble m := by
  dsimp only [roundToDouble]
  split <;> simp only [Nat.add_mul, one_mul, le_refl, Nat.le_add_right]

/-- From `2^53` on, rounding never falls back below `2^53`. -/
theorem two_pow_le_roundToDouble {m : Nat} (large : 2 ^ 53 ≤ m) : 2 ^ 53 ≤ roundToDouble m := by
  have positive : spacingExponent m ≠ 0 := fun zero => by
    have := lt_two_pow_spacingExponent m
    rw [zero] at this
    omega
  have floor := (spacingExponent_floor m).resolve_left positive
  have significand : 2 ^ 52 ≤ m / 2 ^ spacingExponent m :=
    (Nat.le_div_iff_mul_le (Nat.two_pow_pos _)).mpr (by rwa [← Nat.pow_add])
  calc 2 ^ 53 ≤ 2 ^ (52 + spacingExponent m) := Nat.pow_le_pow_right (by decide) (by omega)
    _ = 2 ^ 52 * 2 ^ spacingExponent m := Nat.pow_add 2 52 _
    _ ≤ m / 2 ^ spacingExponent m * 2 ^ spacingExponent m := Nat.mul_le_mul_right _ significand
    _ ≤ roundToDouble m := significand_mul_le_roundToDouble m

/-- No integer other than `x` itself reads back as a double `x` below `2^53`. -/
theorem eq_of_roundToDouble_eq {v x : Nat} (safe : x < 2 ^ 53) (reads : roundToDouble v = x) :
    v = x := by
  by_cases small : v < 2 ^ 53
  · rwa [roundToDouble_of_lt small] at reads
  · have := two_pow_le_roundToDouble (Nat.le_of_not_lt small)
    omega

/-! ## The shortest digits -/

theorem roundToDouble_of_shortestAt {x k v : Nat} (found : shortestAt x k = some v) :
    roundToDouble v = x := by
  dsimp only [shortestAt] at found
  split at found
  · split at found <;> (obtain rfl := Option.some.inj found; tauto)
  · split at found
    · obtain rfl := Option.some.inj found; assumption
    · cases found

/-- What `shortest` picks reads back as `x`, or is `x` itself. -/
theorem shortest_reads_back (x : Nat) :
    roundToDouble (shortest x).2 = x ∨ (shortest x).2 = x := by
  unfold shortest
  cases search : (List.range (decimalLength x)).findSome?
      (fun i => (shortestAt x (i + 1)).map (i + 1, ·)) with
  | none => exact .inr rfl
  | some found =>
    obtain ⟨i, -, picked⟩ := List.exists_of_findSome?_eq_some search
    obtain ⟨v, atI, rfl⟩ := Option.map_eq_some'.mp picked
    exact .inl (roundToDouble_of_shortestAt atI)

/-! ## `Number::toString` on safe integers -/

theorem naturalToString_of_safe {x : Nat} (safe : x < 2 ^ 53) : naturalToString x = Nat.repr x := by
  unfold naturalToString
  split
  · subst x; rfl
  · have picked : (shortest x).2 = x :=
      (shortest_reads_back x).elim (eq_of_roundToDouble_eq safe) id
    have plain : x < 10 ^ 21 := by omega
    simp only [picked, plain, if_true]

/-- A safe integer (`|value| < 2^53`) prints as its own decimal digits, after a
minus sign when it is negative. -/
theorem numberToString_of_safe {value : Int} (safe : value.natAbs < 2 ^ 53) :
    numberToString value = (if value < 0 then "-" else "") ++ Nat.repr value.natAbs := by
  unfold numberToString
  rw [roundToDouble_of_lt safe, naturalToString_of_safe safe]
  split <;> simp

/-! ## The decimal digits of a natural number -/

private theorem isDigit_digitChar {d : Nat} (small : d < 10) : (Nat.digitChar d).isDigit = true :=
  (by decide : ∀ d < 10, (Nat.digitChar d).isDigit = true) d small

private theorem isDigit_of_mem_toDigitsCore :
    ∀ fuel n (acc : List Char), (∀ c ∈ acc, c.isDigit = true) →
      ∀ c ∈ Nat.toDigitsCore 10 fuel n acc, c.isDigit = true
  | 0, _, _, digits => digits
  | fuel + 1, n, acc, digits => by
    have next : ∀ c ∈ Nat.digitChar (n % 10) :: acc, c.isDigit = true := by
      simpa [isDigit_digitChar (Nat.mod_lt n (by decide))] using digits
    dsimp only [Nat.toDigitsCore]
    split
    · exact next
    · exact isDigit_of_mem_toDigitsCore fuel (n / 10) _ next

theorem isDigit_of_mem_repr {n : Nat} {c : Char} (member : c ∈ (Nat.repr n).data) : c.isDigit = true :=
  isDigit_of_mem_toDigitsCore (n + 1) n [] (by simp) c member

private theorem length_toDigitsCore_ge :
    ∀ fuel n k (acc : List Char), 10 ^ k ≤ n → n < fuel →
      k + 1 + acc.length ≤ (Nat.toDigitsCore 10 fuel n acc).length
  | 0, _, _, _, _, enough => absurd enough (Nat.not_lt_zero _)
  | fuel + 1, n, k, acc, large, enough => by
    dsimp only [Nat.toDigitsCore]
    split
    · rename_i last
      have single : k = 0 := Nat.eq_zero_of_not_pos fun positive => by
        have := Nat.pow_le_pow_right (show 0 < 10 by decide) positive
        omega
      simp [single, Nat.add_comm]
    · rename_i more
      have shifted : 10 ^ (k - 1) ≤ n / 10 := (Nat.le_div_iff_mul_le (by decide)).mpr (by
        cases k with
        | zero => omega
        | succ k => rwa [Nat.add_sub_cancel, ← Nat.pow_succ])
      have := length_toDigitsCore_ge fuel (n / 10) (k - 1) (Nat.digitChar (n % 10) :: acc) shifted
        (by omega)
      simp only [List.length_cons] at this
      omega

theorem repr_data_ne_nil (n : Nat) : (Nat.repr n).data ≠ [] := by
  cases n with
  | zero => decide
  | succ n =>
    exact List.ne_nil_of_length_pos (length_toDigitsCore_ge (n + 2) (n + 1) 0 [] (by simp) (by omega))

/-- From `1000` on a number has at least four digits. -/
theorem four_le_length_repr {n : Nat} (large : 1000 ≤ n) : 4 ≤ (Nat.repr n).data.length :=
  length_toDigitsCore_ge (n + 1) n 3 [] large (Nat.lt_succ_self n)

end OvsFrontend.NumberToString

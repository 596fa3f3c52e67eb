import Mathlib.Data.Prod.Lex
import Mathlib.Order.WithBot
import OvsFrontend.Generic.NumberToString
import OvsFrontend.Generic.Utf16

/-! `generic.numberSort` is the comparator the views hand to
`Array.prototype.sort` for names such as `sda2`: `undefined` and `null`
sort first, two strings are ordered by their non-digit characters and, when
those agree, by the number `parseInt` reads from their digits. Strings compare
by their UTF-16 code units (`Utf16.lessThan`), and `parseInt` gives a double:
the one nearest the integer the digits spell, or `Infinity`.

When a string has no digit, `parseInt('')` is `NaN`, every comparison with it
is false, and the comparator answers `-1` both ways: `numberSort('sda', 'sda')`
is `-1` (`numberSort_without_digits`), so it is neither reflexive nor
antisymmetric. On strings that do hold a digit it is the sign of a linear
order (`numberSort_eq_signOf`), hence a consistent comparator there. -/
namespace OvsFrontend.NumberSort

/-- `item.replace(/[\d]+/g, '')`: the item with its decimal digits removed. -/
def removeDigits (item : String) : String := ⟨item.data.filter fun c => !c.isDigit⟩

/-- `item.replace(/[^\d]+/g, '')`: the item's decimal digits, in order. -/
def onlyDigits (item : String) : String := ⟨item.data.filter Char.isDigit⟩

/-- `2 ^ 1024`, above every finite double, stands for `Infinity`. Written as
a shift, it evaluates at once. -/
def infinity : Nat := 1 <<< 1024

/-- `parseInt(digits, 10)` on a string of decimal digits: `NaN` (`none`) for
the empty string, otherwise `𝔽` of the integer the digits spell, the double
nearest it. From `2 ^ 1024 - 2 ^ 970` on that rounding reaches `2 ^ 1024`:
the Number is `Infinity`. Of the latitude ECMA-262 leaves past the twentieth
significant digit, the model takes none: the integer is read exactly and
rounded once. -/
def parseInt (digits : String) : Option Nat :=
  if digits.data = [] then none
  else some (min (NumberToString.roundToDouble
    (digits.data.foldl (fun n c => 10 * n + (c.toNat - '0'.toNat)) 0)) infinity)

/-- JavaScript `a === b` on non-negative integral doubles that may be `NaN`. -/
def numEq : Option Nat → Option Nat → Bool
  | some a, some b => a == b
  | _, _ => false

/-- JavaScript `a > b` on non-negative integral doubles that may be `NaN`. -/
def numGt : Option Nat → Option Nat → Bool
  | some a, some b => decide (b < a)
  | _, _ => false

/-- `generic.numberSort(itemA, itemB)`; `undefined` and `null` are both
`none`. `partA === partB` on strings is their equality. -/
def numberSort : Option String → Option String → Int
  | none, some _ => -1
  | none, none => 0
  | some _, none => 1
  | some itemA, some itemB =>
    let partA := removeDigits itemA
    let partB := removeDigits itemB
    if partA = partB then
      let numberA := parseInt (onlyDigits itemA)
      let numberB := parseInt (onlyDigits itemB)
      if numEq numberA numberB then 0 else if numGt numberA numberB then 1 else -1
    else if Utf16.lessThan partB partA then 1 else -1

/-- A string without digits is below itself: `parseInt('')` is `NaN`, so the
numeric comparison falls through to `-1`. -/
theorem numberSort_without_digits (item : String) (noDigit : ∀ c ∈ item.data, c.isDigit = false) :
    numberSort (some item) (some item) = -1 := by
  have empty : (onlyDigits item).data = [] := List.filter_eq_nil_iff.mpr (by simpa using noDigit)
  simp [numberSort, parseInt, empty, numEq, numGt]

/-- `numberSort('sda', 'sda')` is `-1`, not `0`. -/
theorem numberSort_sda_sda : numberSort (some "sda") (some "sda") = -1 :=
  numberSort_without_digits "sda" (by decide)

/-! ## On strings that hold a digit -/

/-- `-1`, `0` or `1` as `a` is below, equal to or above `b`. -/
def signOf {γ : Type} [LinearOrder γ] (a b : γ) : Int :=
  if a < b then -1 else if a = b then 0 else 1

section SignOf

variable {γ : Type} [LinearOrder γ]

theorem signOf_self (a : γ) : signOf a a = 0 := by simp [signOf]

theorem signOf_swap (a b : γ) : signOf a b = -signOf b a := by
  rcases lt_trichotomy a b with below | same | above
  · simp [signOf, below, below.ne, below.ne', not_lt.mpr below.le]
  · simp [signOf, same]
  · simp [signOf, above, above.ne, above.ne', not_lt.mpr above.le]

theorem signOf_nonpos_iff (a b : γ) : signOf a b ≤ 0 ↔ a ≤ b := by
  rcases lt_trichotomy a b with below | same | above
  · simp [signOf, below, below.le]
  · simp [signOf, same]
  · simp [signOf, not_lt.mpr above.le, above.ne', not_le.mpr above]

theorem signOf_neg_iff (a b : γ) : signOf a b < 0 ↔ a < b := by
  rcases lt_trichotomy a b with below | same | above
  · simp [signOf, below]
  · simp [signOf, same]
  · simp [signOf, not_lt.mpr above.le, above.ne']

theorem signOf_eq_zero_iff (a b : γ) : signOf a b = 0 ↔ a = b := by
  rcases lt_trichotomy a b with below | same | above
  · simp [signOf, below, below.ne]
  · simp [signOf, same]
  · simp [signOf, not_lt.mpr above.le, above.ne']

theorem signOf_pos_iff (a b : γ) : 0 < signOf a b ↔ b < a := by
  rw [signOf_swap, Int.neg_pos, signOf_neg_iff]

/-- `signOf` as `numberSort` tests: equality first, then `>`. -/
theorem signOf_eq_ite (a b : γ) : signOf a b = if a = b then 0 else if b < a then 1 else -1 := by
  rcases lt_trichotomy a b with below | same | above
  · simp [signOf, below, below.ne, not_lt.mpr below.le]
  · simp [signOf, same]
  · simp [signOf, above, above.ne', not_lt.mpr above.le]

theorem signOf_trans {a b c : γ} (first : signOf a b ≤ 0) (second : signOf b c ≤ 0) :
    signOf a c ≤ 0 :=
  (signOf_nonpos_iff a c).mpr
    (((signOf_nonpos_iff a b).mp first).trans ((signOf_nonpos_iff b c).mp second))

end SignOf

/-- The items `numberSort` is a comparator on: `undefined`, `null`, and
strings with at least one decimal digit. -/
def Numbered : Option String → Prop
  | none => True
  | some item => ∃ c ∈ item.data, c.isDigit = true

instance : DecidablePred Numbered
  | none => isTrue trivial
  | some item => inferInstanceAs (Decidable (∃ c ∈ item.data, c.isDigit = true))

/-- What `numberSort` orders a numbered item by: missing items first, then
the non-digit characters in the order of `<`, then the double `parseInt`
reads from the digits. -/
def sortKey : Option String → WithBot (Utf16.CodeUnits ×ₗ Nat)
  | none => ⊥
  | some item => some (toLex (Utf16.codeUnits (removeDigits item), ((parseInt (onlyDigits item)).getD 0)))

theorem parseInt_onlyDigits {item : String} (numbered : Numbered (some item)) :
    parseInt (onlyDigits item) = some ((parseInt (onlyDigits item)).getD 0) := by
  obtain ⟨c, member, digit⟩ := numbered
  have nonempty : (onlyDigits item).data ≠ [] :=
    List.ne_nil_of_mem (List.mem_filter.mpr ⟨member, digit⟩ : c ∈ (onlyDigits item).data)
  rw [parseInt, if_neg nonempty]
  rfl

/-- On numbered items `numberSort` is the sign of the order of `sortKey`. -/
theorem numberSort_eq_signOf {a b : Option String} (numberedA : Numbered a)
    (numberedB : Numbered b) : numberSort a b = signOf (sortKey a) (sortKey b) := by
  cases a with
  | none => cases b <;> simp [numberSort, sortKey, signOf, WithBot.some_eq_coe, WithBot.bot_lt_coe]
  | some itemA =>
    cases b with
    | none => simp [numberSort, sortKey, signOf, WithBot.none_eq_bot, not_lt_bot]
    | some itemB =>
      rw [numberSort, parseInt_onlyDigits numberedA, parseInt_onlyDigits numberedB, signOf_eq_ite]
      simp only [sortKey, numEq, numGt, WithBot.some_eq_coe, WithBot.coe_inj, WithBot.coe_lt_coe,
        toLex_inj, Prod.mk.injEq, Prod.Lex.lt_iff, Utf16.codeUnits_inj, Utf16.codeUnits_lt_iff,
        beq_iff_eq, decide_eq_true_eq]
      by_cases same : removeDigits itemA = removeDigits itemB
      · simp [same, Utf16.lessThan, Utf16.unitsLt_irrefl]
      · simp [same, Ne.symm same]

/-- On `undefined`, `null` and strings holding a digit, `numberSort` is the
sign of the order of `sortKey`: absent items first, then the non-digit
characters in the order of `<` on strings, then the double `parseInt` reads
from the digits. So it is a consistent comparator there: `0` on equal
arguments, negated by a swap, and transitive in its `≤ 0` answers. -/
theorem numberSort_consistent_of_numbered {a b c : Option String} (numberedA : Numbered a)
    (numberedB : Numbered b) (numberedC : Numbered c) :
    numberSort a b = signOf (sortKey a) (sortKey b) ∧ numberSort a a = 0 ∧
      numberSort a b = -numberSort b a ∧
      (numberSort a b ≤ 0 → numberSort b c ≤ 0 → numberSort a c ≤ 0) := by
  refine ⟨numberSort_eq_signOf numberedA numberedB, ?_⟩
  simp only [numberSort_eq_signOf numberedA numberedA, numberSort_eq_signOf numberedA numberedB,
    numberSort_eq_signOf numberedB numberedA, numberSort_eq_signOf numberedB numberedC,
    numberSort_eq_signOf numberedA numberedC]
  exact ⟨signOf_self _, signOf_swap _ _, signOf_trans⟩

theorem numberSort_consistent_on_device_names :
    Numbered (some "sda1") ∧ Numbered (some "sda10") ∧ Numbered (some "sdb2") ∧
      (numberSort (some "sda1") (some "sda10") = signOf (sortKey (some "sda1")) (sortKey (some "sda10")) ∧
        numberSort (some "sda1") (some "sda1") = 0 ∧
        numberSort (some "sda1") (some "sda10") = -numberSort (some "sda10") (some "sda1") ∧
        (numberSort (some "sda1") (some "sda10") ≤ 0 → numberSort (some "sda10") (some "sdb2") ≤ 0 →
          numberSort (some "sda1") (some "sdb2") ≤ 0)) :=
  ⟨by decide, by decide, by decide,
    numberSort_consistent_of_numbered (by decide) (by decide) (by decide)⟩

end OvsFrontend.NumberSort

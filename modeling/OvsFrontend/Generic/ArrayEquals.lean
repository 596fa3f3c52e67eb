import Mathlib.Data.List.Basic

/-! `generic.arrayEquals` and `Array.prototype.equals` compare nested arrays:
equal lengths, then position by position, recursing where both items are
arrays and comparing with `===` otherwise. Leaves are values whose `===` is an
equality (`NaN` excluded), so both functions decide equality of the arrays as
finite trees (`arrayEquals_iff_eq`). -/
namespace OvsFrontend.ArrayEquals

/-- A nested array's item: a value compared by `===`, or an array. -/
inductive Nested (α : Type) where
  | leaf (value : α)
  | array (items : List (Nested α))

variable {α : Type} [DecidableEq α]

mutual

/-- `generic.arrayEquals(array1, array2)` on two arrays (`!array2` is false
for an array). -/
def arrayEquals (array1 array2 : List (Nested α)) : Bool :=
  if array1.length ≠ array2.length then false else itemsEqual array1 array2
termination_by 2 * sizeOf array1 + 1

/-- The `for` loop of `arrayEquals` from position `i` on: `arrayEquals` where
both items are arrays, `===` otherwise, stopping at the first difference. -/
def itemsEqual : List (Nested α) → List (Nested α) → Bool
  | [], _ => true
  | _ :: _, [] => false
  | item1 :: rest1, item2 :: rest2 =>
    (match item1, item2 with
      | .array items1, .array items2 => arrayEquals items1 items2
      | .leaf value1, .leaf value2 => value1 = value2
      | _, _ => false) && itemsEqual rest1 rest2
termination_by array1 => 2 * sizeOf array1
decreasing_by
  all_goals simp_wf
  all_goals omega

end

/-- `this.equals(other)` (`Array.prototype.equals`) on two arrays: the
length test and the loop of `arrayEquals`, whose nested calls go to
`arrayEquals`. -/
def equals (this other : List (Nested α)) : Bool :=
  if this.length ≠ other.length then false else itemsEqual this other

mutual

theorem arrayEquals_eq_true_iff (array1 array2 : List (Nested α)) :
    arrayEquals array1 array2 = true ↔ array1 = array2 := by
  rw [arrayEquals]
  split_ifs with differ
  · simp only [Bool.false_eq_true, false_iff]
    exact fun same => differ (congrArg _ same)
  · exact itemsEqual_eq_true_iff array1 array2 (not_not.mp differ)
termination_by 2 * sizeOf array1 + 1

theorem itemsEqual_eq_true_iff :
    ∀ (array1 array2 : List (Nested α)), array1.length = array2.length →
      (itemsEqual array1 array2 = true ↔ array1 = array2)
  | [], [], _ => by simp [itemsEqual]
  | item1 :: rest1, item2 :: rest2, sameLength => by
    have rest := itemsEqual_eq_true_iff rest1 rest2 (Nat.succ.inj sameLength)
    cases item1 with
    | leaf value1 => cases item2 <;> simp [itemsEqual, rest]
    | array items1 =>
      cases item2 with
      | leaf value2 => simp [itemsEqual]
      | array items2 => simp [itemsEqual, rest, arrayEquals_eq_true_iff items1 items2]
termination_by array1 => 2 * sizeOf array1
decreasing_by
  all_goals simp_wf
  all_goals omega

end

theorem equals_eq_arrayEquals (this other : List (Nested α)) :
    equals this other = arrayEquals this other := by
  rw [arrayEquals]
  rfl

/-- On nested arrays with `===`-comparable leaves, `arrayEquals` is true
exactly when the two arrays are equal as trees, `a.equals(b)` agrees with it,
and both are therefore reflexive, symmetric and transitive. -/
theorem arrayEquals_iff_eq :
    (∀ a b : List (Nested α), arrayEquals a b = true ↔ a = b) ∧
      (∀ a b : List (Nested α), equals a b = arrayEquals a b) ∧
      (∀ a : List (Nested α), arrayEquals a a = true) ∧
      (∀ a b : List (Nested α), arrayEquals a b = arrayEquals b a) ∧
      (∀ a b c : List (Nested α),
        arrayEquals a b = true → arrayEquals b c = true → arrayEquals a c = true) := by
  refine ⟨arrayEquals_eq_true_iff, equals_eq_arrayEquals,
    fun a => (arrayEquals_eq_true_iff a a).mpr rfl, fun a b => ?_, fun a b c first second => ?_⟩
  · exact Bool.eq_iff_iff.mpr (by rw [arrayEquals_eq_true_iff, arrayEquals_eq_true_iff, eq_comm])
  · rw [arrayEquals_eq_true_iff] at first second ⊢
    exact first.trans second

end OvsFrontend.ArrayEquals

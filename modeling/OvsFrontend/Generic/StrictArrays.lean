import Mathlib.Data.List.Basic
import Mathlib.Data.Rat.Defs

/-! The array helpers of generic.js that compare with `===`:
`Array.prototype.contains` and `arrayHasElement` (the same loop),
`Array.prototype.remove` and `removeElement` (`indexOf`, then `splice`), and
`arrayFilterUnique` (`filter` keeping an item where `indexOf` finds it).

Under `===` (`IsStrictlyEqual`), `NaN` equals nothing, itself included. So
`indexOf(NaN)` is `-1` and `arrayFilterUnique` drops every `NaN`: it keeps the
first occurrence of every other value, in order
(`arrayFilterUnique_eq_eraseDups`). `remove` and `removeElement` test the
index the other way round (`> -1` and `!== -1`) and do the same: both delete
the first element equal to a value other than `NaN` (`remove_eq_erase`). -/
namespace OvsFrontend.StrictArrays

/-- A JavaScript value as `===` compares it. Numbers are exact; `+0` and `-0`
are one value, as `===` has them. Objects are compared by identity. -/
inductive Value where
  | undefined
  | null
  | bool (b : Bool)
  | number (x : ℚ)
  | nan
  | string (s : String)
  | object (ref : Nat)
  deriving DecidableEq, Repr

/-- `IsStrictlyEqual(x, y)`. -/
def strictEquals : Value → Value → Bool
  | .nan, _ => false
  | _, .nan => false
  | x, y => x == y

/-- The loop `for (i = 0; i < array.length; i += 1) if (element === array[i])
return true;` followed by `return false`. -/
def hasStrictly (array : List Value) (element : Value) : Bool :=
  match array with
  | [] => false
  | item :: rest => if strictEquals element item then true else hasStrictly rest element

/-- `Array.prototype.contains(element)` on `array`. -/
def contains (array : List Value) (element : Value) : Bool := hasStrictly array element

/-- `generic.arrayHasElement(array, element)`. -/
def arrayHasElement (array : List Value) (element : Value) : Bool := hasStrictly array element

/-- `Array.prototype.indexOf(element)`: the first index holding a value
`===` to `element`, or `-1`. -/
def indexOf (array : List Value) (element : Value) : Int :=
  match array with
  | [] => -1
  | item :: rest =>
    if strictEquals element item then 0
    else
      let index := indexOf rest element
      if index = -1 then -1 else index + 1

/-- `index = array.indexOf(element); if (found(index)) array.splice(index, 1);`,
the array afterwards. -/
def spliceFound (found : Int → Bool) (array : List Value) (element : Value) : List Value :=
  let index := indexOf array element
  if found index then array.eraseIdx index.toNat else array

/-- `Array.prototype.remove(element)` on `array`: it splices when `index > -1`. -/
def remove (array : List Value) (element : Value) : List Value :=
  spliceFound (fun index => index > -1) array element

/-- `generic.removeElement(array, element)`: it splices when `index !== -1`. -/
def removeElement (array : List Value) (element : Value) : List Value :=
  spliceFound (fun index => index != -1) array element

/-- `generic.arrayFilterUnique(array)`: `array.filter` keeps the item at `pos`
when `self.indexOf(item) == pos`. -/
def arrayFilterUnique (array : List Value) : List Value :=
  (array.enum.filter fun (pos, item) => indexOf array item == pos).map Prod.snd

/-- `generic.isEmpty(value)`: `['', null, undefined].contains(value) || value === null`. -/
def isEmpty (value : Value) : Bool :=
  contains [.string "", .null, .undefined] value || strictEquals value .null

/-! ## `===` and `indexOf` -/

@[simp] theorem strictEquals_nan_left (y : Value) : strictEquals .nan y = false := by
  cases y <;> rfl

@[simp] theorem strictEquals_nan_right (x : Value) : strictEquals x .nan = false := by
  cases x <;> rfl

/-- Away from `NaN`, `===` is equality. -/
theorem strictEquals_of_ne_nan {x : Value} (number : x ≠ .nan) (y : Value) :
    strictEquals x y = (x == y) := by
  cases y with
  | nan => simpa using number
  | _ => cases x <;> rfl

theorem strictEquals_of_ne_nan_right (x : Value) {y : Value} (number : y ≠ .nan) :
    strictEquals x y = (x == y) := by
  cases x with
  | nan => simpa using Ne.symm number
  | _ => cases y <;> rfl

/-- The loop of `contains` and `arrayHasElement` finds a value other than
`NaN` exactly when it is in the array, and never finds `NaN`. -/
theorem hasStrictly_eq_true_iff (array : List Value) (element : Value) :
    hasStrictly array element = true ↔ element ≠ .nan ∧ element ∈ array := by
  induction array with
  | nil => simp [hasStrictly]
  | cons item rest ih =>
    by_cases number : element = .nan
    · subst number
      simpa [hasStrictly] using ih
    · simp [hasStrictly, strictEquals_of_ne_nan number, number, ih]

@[simp] theorem indexOf_nan (array : List Value) : indexOf array .nan = -1 := by
  induction array with
  | nil => rfl
  | cons item rest ih => simp [indexOf, ih]

theorem indexOf_cons_of_ne {item element : Value} {rest : List Value} (number : element ≠ .nan)
    (other : element ≠ item) :
    indexOf (item :: rest) element = if indexOf rest element = -1 then -1 else indexOf rest element + 1 := by
  simp [indexOf, strictEquals_of_ne_nan number, other]

/-- What `indexOf` finds in the front of an array it finds there. -/
theorem indexOf_append_of_mem {front : List Value} {element : Value} (back : List Value)
    (present : element ∈ front) : indexOf (front ++ back) element = indexOf front element := by
  by_cases number : element = .nan
  · simp [number]
  induction front with
  | nil => cases present
  | cons item rest ih =>
    by_cases same : element = item
    · subst same
      simp [indexOf, strictEquals_of_ne_nan number]
    · rw [List.cons_append, indexOf_cons_of_ne number same, indexOf_cons_of_ne number same,
        ih ((List.mem_cons.mp present).resolve_left same)]

/-- A value other than `NaN` not in the front of an array is found right after it. -/
theorem indexOf_append_of_not_mem {front : List Value} {element : Value} (back : List Value)
    (number : element ≠ .nan) (absent : element ∉ front) :
    indexOf (front ++ element :: back) element = front.length := by
  induction front with
  | nil => simp [indexOf, strictEquals_of_ne_nan number]
  | cons item rest ih =>
    have other : element ≠ item := fun same => absent (same ▸ List.mem_cons_self _ _)
    rw [List.cons_append, indexOf_cons_of_ne number other,
      ih fun mem => absent (List.mem_cons_of_mem _ mem)]
    rw [if_neg (by omega), List.length_cons]
    omega

theorem indexOf_lt_length {array : List Value} {element : Value} (present : element ∈ array) :
    indexOf array element < array.length := by
  by_cases number : element = .nan
  · simp only [number, indexOf_nan]
    omega
  induction array with
  | nil => cases present
  | cons item rest ih =>
    by_cases same : element = item
    · subst same
      simp [indexOf, strictEquals_of_ne_nan number]
    · have := ih ((List.mem_cons.mp present).resolve_left same)
      rw [indexOf_cons_of_ne number same, List.length_cons]
      split_ifs <;> omega

theorem neg_one_le_indexOf (array : List Value) (element : Value) : -1 ≤ indexOf array element := by
  induction array with
  | nil => exact Int.le_refl _
  | cons item rest ih =>
    simp only [indexOf]
    split_ifs <;> omega

/-! ## `remove` and `removeElement` -/

/-- A splice guard that rejects `-1` and accepts every index deletes the first
element equal to a value other than `NaN`. -/
theorem spliceFound_eq_erase {found : Int → Bool} (missing : found (-1) = false)
    (hit : ∀ index, 0 ≤ index → found index = true) (array : List Value) {element : Value}
    (number : element ≠ .nan) : spliceFound found array element = array.erase element := by
  induction array with
  | nil => simp [spliceFound, indexOf, missing]
  | cons item rest ih =>
    by_cases same : element = item
    · subst same
      simp [spliceFound, indexOf, strictEquals_of_ne_nan number, hit 0 (by decide)]
    · have other : ¬(item == element) := by simpa using Ne.symm same
      unfold spliceFound at ih ⊢
      rw [indexOf_cons_of_ne number same, List.erase_cons_tail other, ← ih]
      by_cases none : indexOf rest element = -1
      · simp [none, missing]
      · have bounded := neg_one_le_indexOf rest element
        have next : (indexOf rest element + 1).toNat = (indexOf rest element).toNat + 1 := by omega
        simp [none, hit _ (show 0 ≤ indexOf rest element + 1 by omega),
          hit _ (show 0 ≤ indexOf rest element by omega), next]

theorem spliceFound_nan (found : Int → Bool) (missing : found (-1) = false) (array : List Value) :
    spliceFound found array .nan = array := by
  simp [spliceFound, missing]

/-- `remove` and `removeElement` test the index the other way round, and both
delete the first element equal to the value, unless it is `NaN`, which they
never find. -/
theorem remove_eq_erase (array : List Value) (element : Value) :
    removeElement array element = remove array element ∧
      remove array element = if element = .nan then array else array.erase element := by
  have greater : ∀ index : Int, 0 ≤ index → decide (index > -1) = true := by
    intro index _
    simpa using (by omega : index > -1)
  have differs : ∀ index : Int, 0 ≤ index → (index != -1) = true := by
    intro index _
    simpa using (by omega : index ≠ -1)
  by_cases number : element = .nan
  · subst number
    simp [remove, removeElement, spliceFound_nan]
  · simp only [remove, removeElement, number, if_false,
      spliceFound_eq_erase (by decide) greater _ number, spliceFound_eq_erase (by decide) differs _ number,
      and_self]

/-! ## `arrayFilterUnique` -/

section EraseDups

variable {α : Type} [BEq α]

theorem eraseDups_loop_append (front back seen : List α) :
    List.eraseDups.loop (front ++ back) seen =
      List.eraseDups.loop back (List.eraseDups.loop front seen).reverse := by
  induction front generalizing seen with
  | nil => simp [List.eraseDups.loop]
  | cons item front ih =>
    simp only [List.cons_append, List.eraseDups.loop]
    cases seen.elem item <;> exact ih _

variable [LawfulBEq α]

theorem mem_eraseDups_loop (item : α) (rest seen : List α) :
    item ∈ List.eraseDups.loop rest seen ↔ item ∈ rest ∨ item ∈ seen := by
  induction rest generalizing seen with
  | nil => simp [List.eraseDups.loop]
  | cons first rest ih =>
    by_cases old : first ∈ seen
    · simp only [List.eraseDups.loop, List.elem_eq_mem, old, decide_True, ih, List.mem_cons]
      by_cases same : item = first
      · simp [same, old]
      · simp [same]
    · simp only [List.eraseDups.loop, List.elem_eq_mem, old, decide_False, ih, List.mem_cons]
      tauto

/-- Deduplicating one more item appends it unless it was already there. -/
theorem eraseDups_append_singleton (front : List α) (last : α) :
    (front ++ [last]).eraseDups = front.eraseDups ++ if last ∈ front then [] else [last] := by
  have seen : last ∈ (List.eraseDups.loop front []).reverse ↔ last ∈ front := by
    simp [mem_eraseDups_loop]
  unfold List.eraseDups
  rw [eraseDups_loop_append]
  by_cases present : last ∈ front
  · simp [List.eraseDups.loop, seen.mpr present, present]
  · simp [List.eraseDups.loop, mt seen.mp present, present]

end EraseDups

/-- The filter keeps one more item of a longer array exactly when it is not
`NaN` and not in the array before it. -/
theorem arrayFilterUnique_append_singleton (front : List Value) (last : Value) :
    arrayFilterUnique (front ++ [last]) =
      arrayFilterUnique front ++ if last = .nan ∨ last ∈ front then [] else [last] := by
  unfold arrayFilterUnique
  rw [List.enum_append, List.filter_append, List.map_append, List.enumFrom_singleton]
  congr 1
  · congr 1
    refine List.filter_congr ?_
    rintro ⟨pos, item⟩ mem
    simp only [indexOf_append_of_mem [last] (List.snd_mem_of_mem_enum mem)]
  · by_cases number : last = .nan
    · simp [number]
    by_cases present : last ∈ front
    · have earlier : indexOf front last ≠ front.length := Int.ne_of_lt (indexOf_lt_length present)
      simp [indexOf_append_of_mem [last] present, present, earlier]
    · simp [indexOf_append_of_not_mem [] number present, number, present]

/-- `arrayFilterUnique` drops every `NaN` and keeps the first occurrence of
every other value, in the order of the array. -/
theorem arrayFilterUnique_eq_eraseDups (array : List Value) :
    arrayFilterUnique array = (array.filter (· != .nan)).eraseDups := by
  induction array using List.reverseRecOn with
  | nil => rfl
  | append_singleton front last ih =>
    rw [arrayFilterUnique_append_singleton, ih, List.filter_append]
    by_cases number : last = .nan
    · simp [number]
    · have keep : (last != .nan) = true := by simpa using number
      have kept : last ∈ front.filter (· != .nan) ↔ last ∈ front := by simp [number]
      simp only [List.filter_singleton, keep, cond_true, eraseDups_append_singleton, kept, number,
        false_or]

end OvsFrontend.StrictArrays

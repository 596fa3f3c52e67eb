import Mathlib.Data.List.Basic
import OvsFrontend.Generic.Utf16

/-! `generic.padRight(value, character, length)` appends `character` while
`value.length < length`, and `formatFunction.setDecimals(value, decimals)`
prints a number with a fixed number of decimals by splitting its text at
`'.'` and padding the decimals with `'0'` in the same kind of loop.

`padRight` appends the least number of copies that brings the text to
`length`; with a character of several letters it overshoots. With the empty
character and a shorter text it never returns (`padRight_appends`).

`setDecimals` only pads: the decimals of the number's text are all kept,
followed by zeros up to `decimals` (`setDecimals_pads`). So it rounds
nothing, and `setDecimals(1.23456, 2)` is `1.23456`; callers round first.
A `decimals` of `0` is falsy, and `decimals || 2` makes it two.

A number is given by its text `value.toString()`, or `none` when `isNaN(value)`;
`decimals` is an integer or missing. `.length` counts UTF-16 code units
(`Utf16.length`): a character from `U+10000` on counts twice. -/
namespace OvsFrontend.SetDecimals

/-- `generic.padRight(value, character, length)`: `while (value.length <
length) value += character;`. At most `fuel` tests; `none` when the fuel
runs out. -/
def padRight : Nat → String → String → Nat → Option String
  | 0, _, _, _ => none
  | fuel + 1, value, character, length =>
    if Utf16.length value < length then padRight fuel (value ++ character) character length else some value

/-- `value.toString().split('.')`, or `["0"]` when `isNaN(value)`. -/
def parts (value : Option String) : List String :=
  match value with
  | none => ["0"]
  | some text => (text.data.splitOn '.').map String.mk

/-- `decimals || 2`: a missing or zero `decimals` is two. -/
def orTwo : Option Int → Int
  | none | some 0 => 2
  | some decimals => decimals

/-- `formatFunction.setDecimals(value, decimals)`. The `for` loop builds `decimals` zeros,
and the `while` loop on `parts[1]` is `padRight` with `'0'`, which ends
within `decimals + 1` tests. `parts` is never empty, so its defaults are not
read. -/
def setDecimals (value : Option String) (decimals : Option Int) : String :=
  let decimals := orTwo decimals
  let parts := parts value
  if decimals ≤ 0 then parts.headD ""
  else
    let parts := if parts.length = 1 then parts ++ [⟨List.replicate decimals.toNat '0'⟩] else parts
    parts.headD "" ++ "." ++ (padRight (decimals.toNat + 1) (parts.getD 1 "") "0" decimals.toNat).getD ""

/-! ## The padding loop -/

/-- When `k` appends bring the text to `length` and fewer do not, `padRight`
makes exactly `k`. -/
theorem padRight_least {character : String} {length : Nat} :
    ∀ {k fuel : Nat} {value : String}, length ≤ Utf16.length value + k * Utf16.length character →
      (∀ j < k, Utf16.length value + j * Utf16.length character < length) → k < fuel →
      padRight fuel value character length = some ((List.replicate k character).foldl (· ++ ·) value)
  | 0, fuel + 1, value, reaches, _, _ => by
    simp [padRight, show ¬Utf16.length value < length by omega]
  | k + 1, fuel + 1, value, reaches, short, enough => by
    have shifted : ∀ j, Utf16.length value + (j + 1) * Utf16.length character =
        Utf16.length (value ++ character) + j * Utf16.length character := fun j => by
      rw [Utf16.length_append, Nat.succ_mul]
      omega
    rw [padRight, if_pos (by simpa using short 0 (Nat.succ_pos k)),
      padRight_least (shifted k ▸ reaches) (fun j below => shifted j ▸ short (j + 1) (by omega))
        (by omega)]
    rfl

/-- With the empty character a shorter text never grows, and the loop never ends. -/
theorem padRight_empty {value : String} {length : Nat} (short : Utf16.length value < length) :
    ∀ fuel, padRight fuel value "" length = none
  | 0 => rfl
  | fuel + 1 => by
    rw [padRight, if_pos short, String.append_empty, padRight_empty short fuel]

/-- `padRight` appends `character` the least number of times that brings
`value` to `length`, so a character of several letters can overshoot. With
the empty character and a shorter `value` it never returns. -/
theorem padRight_appends (value character : String) (length : Nat) :
    (∀ k, length ≤ Utf16.length value + k * Utf16.length character →
      (∀ j < k, Utf16.length value + j * Utf16.length character < length) →
      ∀ fuel, k < fuel →
        padRight fuel value character length = some ((List.replicate k character).foldl (· ++ ·) value)) ∧
    (character = "" → Utf16.length value < length → ∀ fuel, padRight fuel value character length = none) :=
  ⟨fun _ reaches short _ enough => padRight_least reaches short enough,
    fun empty short => empty ▸ padRight_empty short⟩

theorem padRight_appends_on_overshoot :
    padRight 3 "ab" "xyz" 7 = some "abxyzxyz" :=
  (padRight_appends "ab" "xyz" 7).1 2 (by decide) (by decide) 3 (by decide)

/-! ## `setDecimals` -/

private theorem foldl_zeros (k : Nat) : ∀ text : String,
    (List.replicate k "0").foldl (· ++ ·) text = text ++ ⟨List.replicate k '0'⟩ := by
  induction k with
  | zero => intro text; simp
  | succ k ih =>
    intro text
    rw [List.replicate_succ, List.foldl_cons, ih, String.append_assoc]
    rfl

private theorem length_zeros (n : Nat) : Utf16.length ⟨List.replicate n '0'⟩ = n := by
  rw [Utf16.length, Utf16.units_of_small fun c mem => by rw [List.eq_of_mem_replicate mem]; decide]
  simp

private theorem splitOn_of_not_mem {text : List Char} (plain : '.' ∉ text) :
    ∀ x ∈ text, ¬(x == '.') = true := by
  intro x mem same
  exact plain (beq_iff_eq.mp same ▸ mem)

theorem parts_number {whole fraction : String} (wholeNumber : '.' ∉ whole.data)
    (fractionDigits : '.' ∉ fraction.data) : parts (some (whole ++ "." ++ fraction)) = [whole, fraction] := by
  have text : (whole ++ "." ++ fraction).data = whole.data ++ '.' :: fraction.data := by
    simp [String.data_append]
  simp only [parts, text, List.splitOn, List.splitOnP_first _ _ (splitOn_of_not_mem wholeNumber) '.' (by simp),
    List.splitOnP_eq_single _ _ (splitOn_of_not_mem fractionDigits), List.map_cons, List.map_nil]

theorem parts_integer {whole : String} (wholeNumber : '.' ∉ whole.data) :
    parts (some whole) = [whole] := by
  simp only [parts, List.splitOn, List.splitOnP_eq_single _ _ (splitOn_of_not_mem wholeNumber),
    List.map_cons, List.map_nil]

/-- `setDecimals` keeps every decimal of the number's text and pads with zeros
up to `decimals`; an integer's text gets `decimals` zeros. -/
theorem setDecimals_pads (whole fraction : String) (decimals : Nat) (positive : 0 < decimals)
    (wholeNumber : '.' ∉ whole.data) (fractionDigits : '.' ∉ fraction.data) :
    setDecimals (some (whole ++ "." ++ fraction)) (some decimals) =
        whole ++ "." ++ fraction ++ ⟨List.replicate (decimals - Utf16.length fraction) '0'⟩ ∧
      setDecimals (some whole) (some decimals) = whole ++ "." ++ ⟨List.replicate decimals '0'⟩ := by
  have given : orTwo (some (decimals : Int)) = decimals := by
    cases decimals with
    | zero => cases positive
    | succ d => rfl
  have zero : Utf16.length "0" = 1 := rfl
  constructor
  · simp only [setDecimals, given, parts_number wholeNumber fractionDigits, Int.toNat_ofNat,
      List.length_cons, List.length_nil]
    rw [if_neg (by omega), if_neg (by omega)]
    simp only [List.headD_cons, List.getD_cons_succ, List.getD_cons_zero]
    rw [padRight_least (k := decimals - Utf16.length fraction) (by rw [zero]; omega)
      (fun j below => by rw [zero]; omega) (by omega), foldl_zeros, Option.getD_some]
    simp only [String.append_assoc]
  · simp only [setDecimals, given, parts_integer wholeNumber, Int.toNat_ofNat,
      List.length_cons, List.length_nil]
    rw [if_neg (by omega), if_pos trivial]
    simp only [List.singleton_append, List.headD_cons, List.getD_cons_succ, List.getD_cons_zero]
    rw [padRight_least (k := 0) (by simp [length_zeros]) (fun j below => absurd below (Nat.not_lt_zero j)) (by omega)]
    rfl

theorem setDecimals_pads_on_long_decimals :
    0 < 2 ∧ '.' ∉ "1".data ∧ '.' ∉ "23456".data ∧
      (setDecimals (some ("1" ++ "." ++ "23456")) (some 2) =
          "1" ++ "." ++ "23456" ++ ⟨List.replicate (2 - Utf16.length "23456") '0'⟩ ∧
        setDecimals (some "1") (some 2) = "1" ++ "." ++ ⟨List.replicate 2 '0'⟩) :=
  ⟨by decide, by decide, by decide, setDecimals_pads "1" "23456" 2 (by decide) (by decide) (by decide)⟩

end OvsFrontend.SetDecimals

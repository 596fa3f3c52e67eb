import Mathlib.Order.RelClasses

/-! A JavaScript string is a sequence of UTF-16 code units, and the code reads
it as one: `value.length` counts code units, `a < b` compares them one by one,
and `array.sort()` without a comparator sorts by that comparison. A Lean
`String` is a sequence of Unicode scalar values; one from `U+10000` on is two
code units in JavaScript, a surrogate pair from `0xD800` to `0xDFFF`.

So lengths and order are computed here on the code units (`units`), not on
the characters. The two orders differ: `U+10000` is below `U+E000` as code
units, since its first unit is `0xD800`, and above it as code points. The
encoding is injective (`units_injective`), so code units order strings
linearly (`CodeUnits`). -/
namespace OvsFrontend.Utf16

/-- The UTF-16 code units of one character: its code point below `0x10000`,
else the surrogate pair of the code point's offset from `0x10000`. -/
def charUnits (c : Char) : List Nat :=
  if c.toNat < 0x10000 then [c.toNat]
  else [0xD800 + (c.toNat - 0x10000) / 0x400, 0xDC00 + (c.toNat - 0x10000) % 0x400]

/-- The code units of a string, as JavaScript holds it. -/
def units (s : String) : List Nat := s.data.flatMap charUnits

/-- `s.length`: the number of code units. -/
def length (s : String) : Nat := (units s).length

/-- `IsLessThan(x, y)` of ECMA-262 on strings, over their code units: the
first unit that differs decides, and a proper prefix comes first. -/
def unitsLt : List Nat → List Nat → Bool
  | _, [] => false
  | [], _ :: _ => true
  | a :: rest, b :: more => if a = b then unitsLt rest more else decide (a < b)

/-- `x < y` on strings. -/
def lessThan (x y : String) : Bool := unitsLt (units x) (units y)

/-- `SortCompare` of `Array.prototype.sort()` without a comparator, as the
relation of a stable sort: `x` may stay before `y` unless `y < x`. -/
def sortsBefore (x y : String) : Bool := !lessThan y x

/-! ## Lengths -/

@[simp] theorem units_append (x y : String) : units (x ++ y) = units x ++ units y := by
  simp [units, String.data_append, List.flatMap_append]

@[simp] theorem length_append (x y : String) : length (x ++ y) = length x + length y := by
  simp [length]

/-- A character below `U+10000` is one code unit. -/
theorem units_of_small {text : List Char} (small : ∀ c ∈ text, c.toNat < 0x10000) :
    units ⟨text⟩ = text.map Char.toNat := by
  induction text with
  | nil => rfl
  | cons c rest ih =>
    simp only [units, List.flatMap_cons, List.map_cons, charUnits,
      if_pos (small c (List.mem_cons_self c rest))]
    exact congrArg _ (ih fun d mem => small d (List.mem_cons_of_mem c mem))

/-! ## The encoding is injective -/

private theorem eq_of_toNat_eq {c d : Char} (same : c.toNat = d.toNat) : c = d :=
  Char.eq_of_val_eq (UInt32.eq_of_val_eq (Fin.ext same))

/-- A Unicode scalar value is no surrogate and below `0x110000`. -/
private theorem toNat_valid (c : Char) : c.toNat < 0xD800 ∨ (0xDFFF < c.toNat ∧ c.toNat < 0x110000) :=
  c.valid

/-- The first code units of a text decide its first character: a unit below
`0xD800` or above `0xDFFF` is a character of its own, and a high surrogate
`0xD800`–`0xDBFF` starts a pair. -/
theorem charUnits_append_inj {c d : Char} {xs ys : List Nat}
    (same : charUnits c ++ xs = charUnits d ++ ys) : c = d ∧ xs = ys := by
  have validC := toNat_valid c
  have validD := toNat_valid d
  unfold charUnits at same
  split_ifs at same with smallC smallD smallD <;>
    simp only [List.singleton_append, List.cons_append, List.nil_append, List.cons.injEq] at same
  · exact ⟨eq_of_toNat_eq same.1, same.2⟩
  · omega
  · omega
  · exact ⟨eq_of_toNat_eq (by omega), same.2.2⟩

theorem charUnits_ne_nil (c : Char) : charUnits c ≠ [] := by
  unfold charUnits
  split_ifs <;> simp

theorem units_injective {x y : String} (same : units x = units y) : x = y := by
  obtain ⟨xs⟩ := x
  obtain ⟨ys⟩ := y
  simp only [units] at same
  congr
  induction xs generalizing ys with
  | nil =>
    cases ys with
    | nil => rfl
    | cons d rest => simp [charUnits_ne_nil] at same
  | cons c rest ih =>
    cases ys with
    | nil => simp [charUnits_ne_nil] at same
    | cons d more =>
      simp only [List.flatMap_cons] at same
      obtain ⟨rfl, tails⟩ := charUnits_append_inj same
      rw [ih more tails]

/-! ## The order of code units -/

theorem unitsLt_irrefl : ∀ xs : List Nat, unitsLt xs xs = false
  | [] => rfl
  | a :: rest => by simp [unitsLt, unitsLt_irrefl rest]

theorem unitsLt_trans : ∀ {xs ys zs : List Nat}, unitsLt xs ys = true → unitsLt ys zs = true →
    unitsLt xs zs = true
  | _, _, [], _, second => by simp [unitsLt] at second
  | _, [], _ :: _, first, _ => by simp [unitsLt] at first
  | [], _ :: _, _ :: _, _, _ => rfl
  | a :: xs, b :: ys, c :: zs, first, second => by
    simp only [unitsLt] at first second ⊢
    split_ifs at first second ⊢ <;> simp_all <;> first | exact unitsLt_trans first second | omega

theorem unitsLt_trichotomous : ∀ xs ys : List Nat, xs = ys ∨ unitsLt xs ys = true ∨ unitsLt ys xs = true
  | [], [] => .inl rfl
  | [], _ :: _ => .inr (.inl rfl)
  | _ :: _, [] => .inr (.inr rfl)
  | a :: xs, b :: ys => by
    simp only [unitsLt, List.cons.injEq]
    by_cases same : a = b
    · subst same
      simpa using unitsLt_trichotomous xs ys
    · simp only [same, if_false, Ne.symm same, decide_eq_true_eq, false_and, false_or]
      omega

/-- A string as `<` compares it: its code units, in the order of `unitsLt`. -/
structure CodeUnits where
  units : List Nat
  deriving DecidableEq

instance : LT CodeUnits := ⟨fun x y => unitsLt x.units y.units = true⟩

instance : IsStrictTotalOrder CodeUnits (· < ·) where
  trichotomous x y := by
    rcases unitsLt_trichotomous x.units y.units with same | below | above
    · exact .inr (.inl (by cases x; cases y; cases same; rfl))
    · exact .inl below
    · exact .inr (.inr above)
  irrefl x := by simp [LT.lt, unitsLt_irrefl]
  trans _ _ _ := unitsLt_trans

instance : DecidableRel fun x y : CodeUnits => x < y := fun x y =>
  inferInstanceAs (Decidable (unitsLt x.units y.units = true))

instance : LinearOrder CodeUnits := linearOrderOfSTO (· < ·)

/-- A string's place in the order of `<`. -/
def codeUnits (s : String) : CodeUnits := ⟨units s⟩

theorem codeUnits_lt_iff (x y : String) : codeUnits x < codeUnits y ↔ lessThan x y = true := Iff.rfl

theorem codeUnits_inj {x y : String} : codeUnits x = codeUnits y ↔ x = y :=
  ⟨fun same => units_injective (congrArg CodeUnits.units same), congrArg codeUnits⟩

-- Code units and code points order strings differently: `U+10000` comes
-- before `U+E000`.
example : lessThan ⟨[Char.ofNat 0x10000]⟩ ⟨[Char.ofNat 0xE000]⟩ = true ∧
    Char.ofNat 0xE000 < Char.ofNat 0x10000 := by
  decide

end OvsFrontend.Utf16

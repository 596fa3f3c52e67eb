import Mathlib.Data.List.Lex
import Mathlib.Data.Nat.Digits
import Mathlib.Tactic.Ring
import OvsFrontend.Generic.NumberSort

/-! `generic.ipSort` orders dotted-quad addresses by handing their parts, split
at `.`, to `numberSort` one after the other and answering with the first
non-zero result. On addresses that match `ipRegex` every part is a non-empty
string of digits, so `numberSort` takes its numeric branch on each, and
`ipSort` is the sign of the lexicographic order of the octet values
(`ipSort_lex`). -/
namespace OvsFrontend.IpSort

open OvsFrontend.NumberSort

/-! ## The code -/

/-- A character of the class `[lo-hi]`. -/
def inRange (lo hi c : Char) : Bool := lo ≤ c && c ≤ hi

/-- The alternative `25[0-5]` of an octet. -/
def octetHigh : List Char → Bool
  | [a, b, c] => a == '2' && b == '5' && inRange '0' '5' c
  | _ => false

/-- The alternative `2[0-4][0-9]` of an octet. -/
def octetTwoHundreds : List Char → Bool
  | [a, b, c] => a == '2' && inRange '0' '4' b && inRange '0' '9' c
  | _ => false

/-- The alternative `[01]?[0-9][0-9]?` of an octet. -/
def octetLow : List Char → Bool
  | [c] => inRange '0' '9' c
  | [a, b] => ((a == '0' || a == '1') && inRange '0' '9' b) || (inRange '0' '9' a && inRange '0' '9' b)
  | [a, b, c] => (a == '0' || a == '1') && inRange '0' '9' b && inRange '0' '9' c
  | _ => false

/-- One octet of `ipRegex`, matched whole:
`25[0-5]|2[0-4][0-9]|[01]?[0-9][0-9]?`. -/
def octetPattern (part : List Char) : Bool :=
  octetHigh part || octetTwoHundreds part || octetLow part

/-- `ipRegex.test(ip)` for `^(((octet)\.){3}(octet))$`. An octet holds no
`.`, so a match splits `ip` at its dots into exactly four octets. -/
def ipRegex (ip : String) : Bool :=
  match ip.data.splitOn '.' with
  | [a, b, c, d] => octetPattern a && octetPattern b && octetPattern c && octetPattern d
  | _ => false

/-- The `for` loop of `ipSort`: the first non-zero result, `0` when there is
none. -/
def firstNonzero : List Int → Int
  | [] => 0
  | result :: rest => if result ≠ 0 then result else firstNonzero rest

/-- `generic.ipSort(ipA, ipB)`: `numberSort` on the parts at `0` to `3` of
`split('.')`, a missing part being `undefined`. -/
def ipSort (ipA ipB : String) : Int :=
  let ipAParts := ipA.data.splitOn '.'
  let ipBParts := ipB.data.splitOn '.'
  firstNonzero ((List.range 4).map fun i =>
    numberSort ((ipAParts.get? i).map String.mk) ((ipBParts.get? i).map String.mk))

/-! ## Octet values -/

/-- The number a string of decimal digits spells, leading zeros ignored. -/
def octetValue (part : List Char) : Nat :=
  Nat.ofDigits 10 (part.reverse.map fun c => c.toNat - '0'.toNat)

/-- The values of the parts of an address. -/
def octetValues (ip : String) : List Nat := (ip.data.splitOn '.').map octetValue

theorem inRange_isDigit {lo hi c : Char} (low : '0' ≤ lo) (high : hi ≤ '9')
    (inside : inRange lo hi c = true) : c.isDigit = true := by
  simp only [inRange, Bool.and_eq_true, decide_eq_true_eq] at inside
  simp only [Char.isDigit, Bool.and_eq_true, decide_eq_true_eq]
  exact ⟨Nat.le_trans low inside.1, Nat.le_trans inside.2 high⟩

@[simp] theorem inRange_digit (c : Char) : inRange '0' '9' c = c.isDigit := rfl

/-- Every octet is a non-empty string of decimal digits. -/
theorem octetPattern_digits {part : List Char} (matched : octetPattern part = true) :
    part ≠ [] ∧ ∀ c ∈ part, c.isDigit = true := by
  rcases part with _ | ⟨a, _ | ⟨b, _ | ⟨c, _ | ⟨d, rest⟩⟩⟩⟩ <;>
    simp only [octetPattern, octetHigh, octetTwoHundreds, octetLow, inRange_digit, Bool.or_false,
      Bool.false_or, Bool.or_eq_true, Bool.and_eq_true, beq_iff_eq] at matched
  · cases matched
  · simpa using matched
  · rcases matched with ⟨rfl | rfl, digitB⟩ | ⟨digitA, digitB⟩ <;> simp [*]
  · rcases matched with (⟨⟨rfl, rfl⟩, highC⟩ | ⟨⟨rfl, lowB⟩, digitC⟩) | ⟨⟨rfl | rfl, digitB⟩, digitC⟩
    · simp [inRange_isDigit (by decide) (by decide) highC]
    · simp [inRange_isDigit (by decide) (by decide) lowB, digitC]
    all_goals simp [digitB, digitC]
  · cases matched

/-- An octet has at most three digits. -/
theorem octetPattern_short {part : List Char} (matched : octetPattern part = true) : part.length ≤ 3 := by
  rcases part with _ | ⟨_, _ | ⟨_, _ | ⟨_, _ | ⟨_, _⟩⟩⟩⟩
  case cons.cons.cons.cons => simp [octetPattern, octetHigh, octetTwoHundreds, octetLow] at matched
  all_goals simp

theorem digit_lt_ten {c : Char} (digit : c.isDigit = true) : c.toNat - '0'.toNat < 10 := by
  simp only [Char.isDigit, Bool.and_eq_true, decide_eq_true_eq] at digit
  have : c.toNat ≤ 57 := digit.2
  show c.toNat - 48 < 10
  omega

/-- A string of `k` decimal digits spells a number below `10 ^ k`. -/
theorem octetValue_lt {part : List Char} (digits : ∀ c ∈ part, c.isDigit = true) :
    octetValue part < 10 ^ part.length := by
  have below := Nat.ofDigits_lt_base_pow_length (b := 10)
    (l := part.reverse.map fun c => c.toNat - '0'.toNat) (by decide) (by
      simp only [List.mem_map, List.mem_reverse]
      rintro _ ⟨c, mem, rfl⟩
      exact digit_lt_ten (digits c mem))
  simpa [octetValue] using below

/-- `parseInt`'s reading of a digit string is its decimal value. -/
theorem foldl_digits (part : List Char) (n : Nat) :
    part.foldl (fun n c => 10 * n + (c.toNat - '0'.toNat)) n = n * 10 ^ part.length + octetValue part := by
  induction part generalizing n with
  | nil => simp [octetValue]
  | cons c rest ih =>
    rw [List.foldl_cons, ih]
    simp only [octetValue, List.reverse_cons, List.map_append, Nat.ofDigits_append, List.length_map,
      List.length_reverse, List.map_cons, List.map_nil, Nat.ofDigits_singleton, List.length_cons,
      pow_succ]
    ring

/-- On two non-empty strings of digits that spell numbers below `2 ^ 53`,
where every integer is a double, `numberSort` compares those numbers. -/
theorem numberSort_digits {a b : List Char} (digitsA : a ≠ [] ∧ ∀ c ∈ a, c.isDigit = true)
    (digitsB : b ≠ [] ∧ ∀ c ∈ b, c.isDigit = true) (safeA : octetValue a < 2 ^ 53)
    (safeB : octetValue b < 2 ^ 53) :
    numberSort (some ⟨a⟩) (some ⟨b⟩) = signOf (octetValue a) (octetValue b) := by
  have read : ∀ {part : List Char}, part ≠ [] ∧ (∀ c ∈ part, c.isDigit = true) →
      octetValue part < 2 ^ 53 →
      removeDigits ⟨part⟩ = "" ∧ parseInt (onlyDigits ⟨part⟩) = some (octetValue part) := by
    intro part ⟨nonempty, digits⟩ safe
    have kept : part.filter Char.isDigit = part := List.filter_eq_self.mpr digits
    refine ⟨congrArg String.mk (List.filter_eq_nil_iff.mpr (by simpa using digits)), ?_⟩
    rw [parseInt, onlyDigits, kept, if_neg nonempty, foldl_digits, zero_mul, zero_add,
      NumberToString.roundToDouble_of_lt safe, min_eq_left (safe.le.trans (by decide))]
  obtain ⟨restA, numberA⟩ := read digitsA safeA
  obtain ⟨restB, numberB⟩ := read digitsB safeB
  simp only [numberSort, restA, restB, numberA, numberB, numEq, numGt, if_true, signOf]
  rcases lt_trichotomy (octetValue a) (octetValue b) with below | same | above
  · simp [below, below.ne, not_lt.mpr below.le]
  · simp [same]
  · simp [above, above.ne', not_lt.mpr above.le]

/-- An octet spells a number below `1000`, so below `2 ^ 53`. -/
theorem octetPattern_safe {part : List Char} (matched : octetPattern part = true) :
    octetValue part < 2 ^ 53 :=
  calc octetValue part < 10 ^ part.length := octetValue_lt (octetPattern_digits matched).2
    _ ≤ 10 ^ 3 := Nat.pow_le_pow_right (by decide) (octetPattern_short matched)
    _ < 2 ^ 53 := by decide

/-! ## The lexicographic order -/

/-- Lists compare by their first differing entries. -/
theorem signOf_cons (x y : Nat) (xs ys : List Nat) :
    signOf (x :: xs) (y :: ys) = if signOf x y ≠ 0 then signOf x y else signOf xs ys := by
  rcases lt_trichotomy x y with below | rfl | above
  · have before : x :: xs < y :: ys := List.Lex.rel below
    simp [signOf, before, below]
  · have same : x :: xs < x :: ys ↔ xs < ys := List.Lex.cons_iff
    rw [if_neg (by simp [signOf_self])]
    simp only [signOf, same, List.cons.injEq, true_and]
    split_ifs <;> rfl
  · have after : y :: ys < x :: xs := List.Lex.rel above
    simp [signOf, not_lt.mpr after.le, after.ne', above.ne', not_lt.mpr above.le]

/-- The first non-zero comparison of the entries is the comparison of the
lists. -/
theorem firstNonzero_zipWith :
    ∀ (xs ys : List Nat), xs.length = ys.length →
      firstNonzero (List.zipWith signOf xs ys) = signOf xs ys
  | [], [], _ => (signOf_self _).symm
  | x :: xs, y :: ys, sameLength => by
    rw [List.zipWith_cons_cons, firstNonzero, signOf_cons,
      firstNonzero_zipWith xs ys (Nat.succ.inj sameLength)]

theorem ipRegex_parts {ip : String} (matched : ipRegex ip = true) :
    ∃ a b c d, ip.data.splitOn '.' = [a, b, c, d] ∧ octetPattern a = true ∧
      octetPattern b = true ∧ octetPattern c = true ∧ octetPattern d = true := by
  unfold ipRegex at matched
  split at matched
  · next a b c d split =>
    simp only [Bool.and_eq_true] at matched
    exact ⟨a, b, c, d, split, matched.1.1.1, matched.1.1.2, matched.1.2, matched.2⟩
  · cases matched

/-- On two addresses that match `ipRegex`, `ipSort` is the sign of the
lexicographic order of their octet values. -/
theorem ipSort_eq_signOf {ipA ipB : String} (matchA : ipRegex ipA = true)
    (matchB : ipRegex ipB = true) : ipSort ipA ipB = signOf (octetValues ipA) (octetValues ipB) := by
  obtain ⟨a₁, a₂, a₃, a₄, splitA, pa₁, pa₂, pa₃, pa₄⟩ := ipRegex_parts matchA
  obtain ⟨b₁, b₂, b₃, b₄, splitB, pb₁, pb₂, pb₃, pb₄⟩ := ipRegex_parts matchB
  simp only [ipSort, octetValues, splitA, splitB]
  show firstNonzero [numberSort (some ⟨a₁⟩) (some ⟨b₁⟩), numberSort (some ⟨a₂⟩) (some ⟨b₂⟩),
    numberSort (some ⟨a₃⟩) (some ⟨b₃⟩), numberSort (some ⟨a₄⟩) (some ⟨b₄⟩)] = _
  rw [numberSort_digits (octetPattern_digits pa₁) (octetPattern_digits pb₁)
      (octetPattern_safe pa₁) (octetPattern_safe pb₁),
    numberSort_digits (octetPattern_digits pa₂) (octetPattern_digits pb₂)
      (octetPattern_safe pa₂) (octetPattern_safe pb₂),
    numberSort_digits (octetPattern_digits pa₃) (octetPattern_digits pb₃)
      (octetPattern_safe pa₃) (octetPattern_safe pb₃),
    numberSort_digits (octetPattern_digits pa₄) (octetPattern_digits pb₄)
      (octetPattern_safe pa₄) (octetPattern_safe pb₄)]
  exact firstNonzero_zipWith [_, _, _, _] [_, _, _, _] rfl

/-- On addresses matching `ipRegex`, `ipSort` is negative, zero or positive
exactly as the octet values of the first are lexicographically below, equal
to or above those of the second; so it is a total preorder there. -/
theorem ipSort_lex {ipA ipB : String} (matchA : ipRegex ipA = true) (matchB : ipRegex ipB = true) :
    (ipSort ipA ipB < 0 ↔ List.Lex (· < ·) (octetValues ipA) (octetValues ipB)) ∧
      (ipSort ipA ipB = 0 ↔ octetValues ipA = octetValues ipB) ∧
      (0 < ipSort ipA ipB ↔ List.Lex (· < ·) (octetValues ipB) (octetValues ipA)) ∧
      (ipSort ipA ipB ≤ 0 ∨ ipSort ipB ipA ≤ 0) ∧
      (∀ ipC, ipRegex ipC = true → ipSort ipA ipB ≤ 0 → ipSort ipB ipC ≤ 0 → ipSort ipA ipC ≤ 0) := by
  rw [ipSort_eq_signOf matchA matchB, ipSort_eq_signOf matchB matchA]
  refine ⟨signOf_neg_iff _ _, signOf_eq_zero_iff _ _, signOf_pos_iff _ _, ?_,
    fun ipC matchC first second => ?_⟩
  · simp only [signOf_nonpos_iff]
    exact le_total _ _
  · rw [ipSort_eq_signOf matchB matchC] at second
    rw [ipSort_eq_signOf matchA matchC]
    exact signOf_trans first second

theorem ipSort_lex_on_addresses :
    ipRegex "10.0.0.9" = true ∧ ipRegex "10.0.0.10" = true ∧
      ((ipSort "10.0.0.9" "10.0.0.10" < 0 ↔
          List.Lex (· < ·) (octetValues "10.0.0.9") (octetValues "10.0.0.10")) ∧
        (ipSort "10.0.0.9" "10.0.0.10" = 0 ↔ octetValues "10.0.0.9" = octetValues "10.0.0.10") ∧
        (0 < ipSort "10.0.0.9" "10.0.0.10" ↔
          List.Lex (· < ·) (octetValues "10.0.0.10") (octetValues "10.0.0.9")) ∧
        (ipSort "10.0.0.9" "10.0.0.10" ≤ 0 ∨ ipSort "10.0.0.10" "10.0.0.9" ≤ 0) ∧
        (∀ ipC, ipRegex ipC = true → ipSort "10.0.0.9" "10.0.0.10" ≤ 0 →
          ipSort "10.0.0.10" ipC ≤ 0 → ipSort "10.0.0.9" ipC ≤ 0)) :=
  ⟨by decide, by decide, ipSort_lex (by decide) (by decide)⟩

end OvsFrontend.IpSort

import OvsFrontend.Generic.NumberToString
import OvsFrontend.Generic.ThousandsPattern

/-! `formatFunction.formatNumber` (generic.js) prints a value with thousand
separators. It rounds the value, prints it, and, while `/(\d+)(\d{3})/`
matches, replaces the first match by `'$1' + separator + '$2'`, where
`separator` is the translation of `ovs:generic.thousandseparator`.

Each replace splits off the last three digits of the leading run of digits,
as long as the separator breaks that run. With a non-empty separator that has
no digit and no `$`, a safe integer comes out with its own digits, grouped by
three from the right (`formatNumber_groups_of_safe`). Two things go wrong
outside those bounds:
- with the empty separator, or with one that is a digit, the loop never ends
  (`formatNumber_never_returns`);
- above `2^53` the printed digits are those of the nearest double
  (`formatNumber_two_pow_55`). -/
namespace OvsFrontend.FormatNumber

open OvsFrontend.NumberToString

/-- The `while` loop of `formatNumber`: as long as the pattern matches, its
first match is replaced. At most `fuel` tests; `none` when the fuel runs out. -/
def separateThousands (separator : List Char) : Nat → List Char → Option (List Char)
  | 0, _ => none
  | fuel + 1, value =>
    if test value then separateThousands separator fuel (replace value (template separator))
    else some value

/-- `formatFunction.formatNumber(value)` for an integer `value`, or for
`undefined` (`none`), which comes back as it is. `this.round(value)` is
`Math.round(value)`, the integer itself. The outer `none` means the loop did
not end within `fuel` tests. -/
def formatNumber (separator : String) (fuel : Nat) : Option Int → Option (Option String)
  | none => some none
  | some value =>
    (separateThousands separator.data fuel (numberToString value).data).map fun text => some ⟨text⟩

/-! ## Runs of the loop -/

/-- The loop's answer does not depend on the fuel, once it has one. -/
theorem separateThousands_unique {separator : List Char} :
    ∀ {fuel fuel' : Nat} {value result result' : List Char},
      separateThousands separator fuel value = some result →
      separateThousands separator fuel' value = some result' → result = result'
  | 0, _, _, _, _, first, _ => by cases first
  | _ + 1, 0, _, _, _, _, second => by cases second
  | fuel + 1, fuel' + 1, value, result, result', first, second => by
    simp only [separateThousands] at first second
    split at first
    · rw [if_pos ‹_›] at second
      exact separateThousands_unique first second
    · rw [if_neg ‹_›] at second
      exact (Option.some.inj first).symm.trans (Option.some.inj second)

theorem formatNumber_unique {separator : String} {fuel fuel' : Nat} {value : Option Int}
    {result result' : Option String} (first : formatNumber separator fuel value = some result)
    (second : formatNumber separator fuel' value = some result') : result = result' := by
  cases value with
  | none => exact (Option.some.inj first).symm.trans (Option.some.inj second)
  | some value =>
    obtain ⟨text, ran, rfl⟩ := Option.map_eq_some'.mp first
    obtain ⟨text', ran', rfl⟩ := Option.map_eq_some'.mp second
    rw [separateThousands_unique ran ran']

/-- A value that the pattern matches and that the replace leaves as it is
keeps the loop going for ever. -/
theorem separateThousands_stuck {separator value : List Char} (matched : test value = true)
    (fixed : replace value (template separator) = value) :
    ∀ fuel, separateThousands separator fuel value = none
  | 0 => rfl
  | fuel + 1 => by
    rw [separateThousands, if_pos matched, fixed, separateThousands_stuck matched fixed fuel]

section Lead

variable {sign lead : List Char} (signNonDigit : ∀ c ∈ sign, c.isDigit = false)
  (leadDigits : ∀ c ∈ lead, c.isDigit = true)
include signNonDigit leadDigits

/-- With the empty separator the replace puts the match back unchanged, so a
run of four digits keeps matching. -/
theorem separateThousands_empty_separator (long : 4 ≤ lead.length) (fuel : Nat) :
    separateThousands [] fuel (sign ++ lead) = none := by
  have found := exec_long_lead signNonDigit leadDigits head_nil_nonDigit long
  have fixed := replace_long_lead signNonDigit leadDigits head_nil_nonDigit long
    (List.not_mem_nil '$')
  rw [List.append_nil] at found fixed
  refine separateThousands_stuck (by rw [test, found]; rfl) ?_ fuel
  rw [fixed, List.nil_append, List.append_nil, List.append_assoc, List.take_append_drop]

end Lead

theorem isDigit_of_mem_one_zeros (zeros : Nat) :
    ∀ c ∈ '1' :: List.replicate zeros '0', c.isDigit = true := by
  simp only [List.mem_cons, List.mem_replicate]
  rintro c (rfl | ⟨-, rfl⟩) <;> rfl

/-- With the separator `0` the digit run only grows: `1000` becomes `10000`,
then `100000`, and so on. -/
theorem separateThousands_zero_separator (fuel zeros : Nat) :
    separateThousands ['0'] fuel ('1' :: List.replicate (zeros + 3) '0') = none := by
  induction fuel generalizing zeros with
  | zero => rfl
  | succ fuel ih =>
    have digits := isDigit_of_mem_one_zeros (zeros + 3)
    have long : 4 ≤ ('1' :: List.replicate (zeros + 3) '0').length := by simp
    have found := exec_long_lead (List.forall_mem_nil _) digits head_nil_nonDigit long
    have matched : test ('1' :: List.replicate (zeros + 3) '0') = true := by
      rw [List.nil_append, List.append_nil] at found
      rw [test, found]
      rfl
    have grown : replace ('1' :: List.replicate (zeros + 3) '0') (template ['0']) =
        '1' :: List.replicate (zeros + 1 + 3) '0' := by
      have := replace_long_lead (List.forall_mem_nil _) digits head_nil_nonDigit long
        (show '$' ∉ ['0'] by decide)
      simp only [List.nil_append, List.append_nil] at this
      rw [this]
      simp [List.take_replicate, List.drop_replicate, List.replicate_succ', List.replicate_add]
    rw [separateThousands, if_pos matched, grown, ih]

/-- `formatNumber(1000)` does not return when the translation of
`ovs:generic.thousandseparator` is empty, nor when it is `0`. -/
theorem formatNumber_never_returns (fuel : Nat) :
    formatNumber "" fuel (some 1000) = none ∧ formatNumber "0" fuel (some 1000) = none := by
  have printed : (numberToString 1000).data = '1' :: List.replicate (0 + 3) '0' := by decide
  refine ⟨?_, ?_⟩
  · have := separateThousands_empty_separator (List.forall_mem_nil _)
      (isDigit_of_mem_one_zeros (0 + 3)) (by decide) fuel
    rw [List.nil_append] at this
    simp only [formatNumber, printed]
    rw [this]
    rfl
  · simp only [formatNumber, printed]
    rw [separateThousands_zero_separator]
    rfl

/-! ## Grouping by three -/

section Grouping

variable {separator sign : List Char} (nonempty : separator ≠ [])
  (noDigit : ∀ c ∈ separator, c.isDigit = false) (noDollar : '$' ∉ separator)
  (signNonDigit : ∀ c ∈ sign, c.isDigit = false)
include nonempty noDigit noDollar signNonDigit

/-- The loop on a sign, a leading run of digits and groups behind the
separator: while the run has four digits or more, its last three move into a
new group. With `lead.length ≤ 3 * fuel` the loop ends, with a run of one to
three digits and the same digits in the same order. -/
theorem separateThousands_grouped :
    ∀ fuel (lead : List Char) (groups : List (List Char)), lead ≠ [] →
      (∀ c ∈ lead, c.isDigit = true) → ThreeDigitGroups groups → lead.length ≤ 3 * fuel →
      ∃ lead' groups', 1 ≤ lead'.length ∧ lead'.length ≤ 3 ∧ ThreeDigitGroups groups' ∧
        lead' ++ groups'.flatten = lead ++ groups.flatten ∧
        separateThousands separator fuel (sign ++ lead ++ separated separator groups) =
          some (sign ++ lead' ++ separated separator groups')
  | 0, lead, _, nonemptyLead, _, _, enough =>
    absurd (List.eq_nil_of_length_eq_zero (by omega)) nonemptyLead
  | fuel + 1, lead, groups, nonemptyLead, leadDigits, grouped, enough => by
    have stop := separated_head_nonDigit nonempty noDigit groups
    by_cases short : lead.length ≤ 3
    · have noMatch : test (sign ++ lead ++ separated separator groups) = false := by
        rw [test, exec_short_lead signNonDigit leadDigits stop short,
          execFrom_separated nonempty noDigit grouped]
        rfl
      refine ⟨lead, groups, List.length_pos.mpr nonemptyLead, short, grouped, rfl, ?_⟩
      rw [separateThousands, if_neg (by rw [noMatch]; decide)]
    · have long : 4 ≤ lead.length := by omega
      have matched : test (sign ++ lead ++ separated separator groups) = true := by
        rw [test, exec_long_lead signNonDigit leadDigits stop long]
        rfl
      have lastThree : ThreeDigitGroups (lead.drop (lead.length - 3) :: groups) := by
        rintro group (_ | ⟨_, member⟩)
        · exact ⟨by simp; omega, fun c member => leadDigits c (List.mem_of_mem_drop member)⟩
        · exact grouped group member
      obtain ⟨lead', groups', one, three, grouped', joined, ran⟩ :=
        separateThousands_grouped fuel (lead.take (lead.length - 3))
          (lead.drop (lead.length - 3) :: groups)
          (List.ne_nil_of_length_pos (by simp; omega))
          (fun c member => leadDigits c (List.mem_of_mem_take member)) lastThree
          (by simp; omega)
      refine ⟨lead', groups', one, three, grouped', ?_, ?_⟩
      · rw [joined, List.flatten_cons, ← List.append_assoc, List.take_append_drop]
      · rw [separateThousands, if_pos matched,
          replace_long_lead signNonDigit leadDigits stop long noDollar, ← separated_cons, ran]

end Grouping

/-- The sign `numberToString` puts before the digits. -/
private theorem sign_nonDigit (value : Int) :
    ∀ c ∈ (if value < 0 then ['-'] else []), c.isDigit = false := by
  split <;> simp

private theorem numberToString_data_of_safe {value : Int} (safe : value.natAbs < 2 ^ 53) :
    (numberToString value).data = (if value < 0 then ['-'] else []) ++ (Nat.repr value.natAbs).data := by
  rw [numberToString_of_safe safe]
  split <;> rfl

/-- On a safe integer, with a non-empty separator that holds no digit and no
`$`, `formatNumber` returns within as many tests as the number has digits. It
returns a minus sign for a negative value, then the digits of `|value|` in
groups: a leading group of one to three digits, then groups of three, each
behind the separator. -/
theorem formatNumber_groups_of_safe (value : Int) (safe : value.natAbs < 2 ^ 53)
    (separator : String) (nonempty : separator ≠ "")
    (noDigit : ∀ c ∈ separator.data, c.isDigit = false) (noDollar : '$' ∉ separator.data)
    (fuel : Nat) (enough : (Nat.repr value.natAbs).length ≤ fuel) :
    ∃ lead groups, 1 ≤ lead.length ∧ lead.length ≤ 3 ∧ ThreeDigitGroups groups ∧
      lead ++ groups.flatten = (Nat.repr value.natAbs).data ∧
      formatNumber separator fuel (some value) =
        some (some ⟨(if value < 0 then ['-'] else []) ++ lead ++ separated separator.data groups⟩) := by
  have separatorNonempty : separator.data ≠ [] := fun empty => nonempty (by
    cases separator
    simp_all)
  have digitsFuel : (Nat.repr value.natAbs).data.length ≤ 3 * fuel := by
    have : (Nat.repr value.natAbs).data.length ≤ fuel := enough
    omega
  obtain ⟨lead, groups, one, three, grouped, joined, ran⟩ :=
    separateThousands_grouped separatorNonempty noDigit noDollar (sign_nonDigit value) fuel
      (Nat.repr value.natAbs).data [] (repr_data_ne_nil _) (fun _ member => isDigit_of_mem_repr member)
      (fun _ member => nomatch member) digitsFuel
  refine ⟨lead, groups, one, three, grouped, by simpa using joined, ?_⟩
  rw [separated_nil, List.append_nil] at ran
  simp only [formatNumber, numberToString_data_of_safe safe, ran, Option.map_some']

theorem formatNumber_groups_of_safe_on_negative :
    (-1234567 : Int).natAbs < 2 ^ 53 ∧ "," ≠ "" ∧ (∀ c ∈ ",".data, c.isDigit = false) ∧
      '$' ∉ ",".data ∧ (Nat.repr (-1234567 : Int).natAbs).length ≤ 7 ∧
      ∃ lead groups, 1 ≤ lead.length ∧ lead.length ≤ 3 ∧ ThreeDigitGroups groups ∧
        lead ++ groups.flatten = (Nat.repr (-1234567 : Int).natAbs).data ∧
        formatNumber "," 7 (some (-1234567)) =
          some (some ⟨(if (-1234567 : Int) < 0 then ['-'] else []) ++ lead ++
            separated ",".data groups⟩) :=
  ⟨by decide, by decide, by decide, by decide, by decide,
    formatNumber_groups_of_safe (-1234567) (by decide) "," (by decide) (by decide) (by decide) 7
      (by decide)⟩

/-- `2^55 = 36028797018963968` is a double, but `Number::toString` writes the
fewest digits that read back as it, `36028797018963970`, and `formatNumber`
groups those: no fuel gives the digits of `2^55`. -/
theorem formatNumber_two_pow_55 :
    formatNumber "," 6 (some 36028797018963968) = some (some "36,028,797,018,963,970") ∧
      ∀ fuel, formatNumber "," fuel (some 36028797018963968) ≠
        some (some "36,028,797,018,963,968") := by
  have printed : formatNumber "," 6 (some 36028797018963968) =
      some (some "36,028,797,018,963,970") := by decide
  refine ⟨printed, fun fuel claimed => ?_⟩
  exact absurd (formatNumber_unique claimed printed) (by decide)

/-- With the empty separator, `formatNumber` never returns on a safe integer of
four digits or more. -/
theorem formatNumber_empty_separator_diverges (value : Int) (fourDigits : 1000 ≤ value.natAbs)
    (safe : value.natAbs < 2 ^ 53) (fuel : Nat) : formatNumber "" fuel (some value) = none := by
  have stuck := separateThousands_empty_separator (sign_nonDigit value)
    (fun _ member => isDigit_of_mem_repr member) (four_le_length_repr fourDigits) fuel
  simp only [formatNumber, numberToString_data_of_safe safe]
  rw [stuck]
  rfl

theorem formatNumber_empty_separator_diverges_on_million :
    1000 ≤ (-1234567 : Int).natAbs ∧ (-1234567 : Int).natAbs < 2 ^ 53 ∧
      ∀ fuel, formatNumber "" fuel (some (-1234567)) = none :=
  ⟨by decide, by decide, formatNumber_empty_separator_diverges (-1234567) (by decide) (by decide)⟩

end OvsFrontend.FormatNumber

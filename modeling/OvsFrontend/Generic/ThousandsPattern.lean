import Mathlib.Data.List.Basic

/-! The text `formatNumber` rewrites is matched against `/(\d+)(\d{3})/` and
replaced with the template `'$1' + separator + '$2'`. This module models the
part of the ECMAScript engine that this uses:
- `RegExpBuiltinExec` of this non-global pattern: the leftmost position, with
  the greedy `\d+` giving back digits one by one;
- `GetSubstitution`, which reads `$` references in the whole template, the
  separator's characters included;
- `RegExp.prototype[@@replace]` for one match.

On text shaped as `formatNumber` keeps it (a sign, a run of leading digits,
then groups of three digits each behind the separator), the pattern matches
exactly when the leading run has four digits or more. Then it splits off that
run's last three digits (`exec_long_lead`, `replace_long_lead`); with one to three
leading digits it does not match (`exec_short_lead`). -/
namespace OvsFrontend.FormatNumber

/-- `\d{3}` at the start of `input`. -/
def threeDigits : List Char → Bool
  | a :: b :: c :: _ => a.isDigit && b.isDigit && c.isDigit
  | _ => false

/-- `(\d+)(\d{3})` at the start of `input` once `\d+` holds `count` digits: the
greedy quantifier gives its digits back one at a time until `\d{3}` matches
what follows; the two captures of the first count that works. -/
def backtrack (input : List Char) : Nat → Option (List Char × List Char)
  | 0 => none
  | count + 1 =>
    if threeDigits (input.drop (count + 1)) then
      some (input.take (count + 1), (input.drop (count + 1)).take 3)
    else backtrack input count

/-- The pattern tried at the start of `input`: `\d+` first takes every digit. -/
def matchAt (input : List Char) : Option (List Char × List Char) :=
  backtrack input (input.takeWhile Char.isDigit).length

/-- `RegExpBuiltinExec` of the non-global pattern on the text from `index` on
(`input`): the first index at which the pattern matches, with its captures. -/
def execFrom : List Char → Nat → Option (Nat × List Char × List Char)
  | [], _ => none
  | c :: rest, index =>
    match matchAt (c :: rest) with
    | some captures => some (index, captures)
    | none => execFrom rest (index + 1)

/-- `regex.exec(input)`. -/
def exec (input : List Char) : Option (Nat × List Char × List Char) := execFrom input 0

/-- `regex.test(input)`. -/
def test (input : List Char) : Bool := (exec input).isSome

/-- The apostrophe of the `$'` reference. -/
def apostrophe : Char := Char.ofNat 39

/-- The grave accent of the `` $` `` reference. -/
def graveAccent : Char := Char.ofNat 96

/-- The value of a decimal digit character. -/
def digitValue (c : Char) : Nat := c.toNat - '0'.toNat

/-- The capture a reference `$index` names, empty when it is undefined. -/
def captureOf (captures : List (List Char)) (index : Nat) : List Char := captures.getD (index - 1) []

/-- A one-digit reference `$digit`: its capture when `digit` numbers one,
otherwise the two characters themselves. -/
def oneDigitReference (captures : List (List Char)) (digit : Char) : List Char :=
  if 1 ≤ digitValue digit ∧ digitValue digit ≤ captures.length then captureOf captures (digitValue digit)
  else ['$', digit]

/-- Where the scan of a replacement template stands: in plain text, right
after a `$`, or after a `$` and one digit. -/
inductive Pending
  | text
  | dollar
  | digit (first : Char)

/-- The scan of `GetSubstitution(matched, str, position, captures, undefined,
template)` (ECMA-262, 22.1.3.19.1) for a pattern without named groups, one
template character at a time. A two-digit reference whose number exceeds the
captures is read as a one-digit reference followed by a literal digit, and a
`$` that starts no reference stays. -/
def substitute (matched str : List Char) (position : Nat) (captures : List (List Char)) :
    Pending → List Char → List Char
  | .text, [] => []
  | .dollar, [] => ['$']
  | .digit first, [] => oneDigitReference captures first
  | .text, c :: rest =>
    if c = '$' then substitute matched str position captures .dollar rest
    else c :: substitute matched str position captures .text rest
  | .dollar, c :: rest =>
    if c = '$' then '$' :: substitute matched str position captures .text rest
    else if c = graveAccent then str.take position ++ substitute matched str position captures .text rest
    else if c = '&' then matched ++ substitute matched str position captures .text rest
    else if c = apostrophe then
      str.drop (position + matched.length) ++ substitute matched str position captures .text rest
    else if c.isDigit then substitute matched str position captures (.digit c) rest
    else '$' :: c :: substitute matched str position captures .text rest
  | .digit first, c :: rest =>
    if c.isDigit ∧ 10 * digitValue first + digitValue c ≤ captures.length then
      (if 1 ≤ 10 * digitValue first + digitValue c then
        captureOf captures (10 * digitValue first + digitValue c)
      else ['$', first, c]) ++ substitute matched str position captures .text rest
    else oneDigitReference captures first ++
      if c = '$' then substitute matched str position captures .dollar rest
      else c :: substitute matched str position captures .text rest

/-- `GetSubstitution(matched, str, position, captures, undefined, template)`. -/
def getSubstitution (matched str : List Char) (position : Nat) (captures : List (List Char))
    (template : List Char) : List Char :=
  substitute matched str position captures .text template

/-- `input.replace(regex, template)` for the non-global pattern: the text
before the match, the substituted template, and the text after it. -/
def replace (input template : List Char) : List Char :=
  match exec input with
  | none => input
  | some (position, first, last) =>
    input.take position ++ getSubstitution (first ++ last) input position [first, last] template ++
      input.drop (position + (first ++ last).length)

/-- The template `'$1' + separator + '$2'` of `formatNumber`. -/
def template (separator : List Char) : List Char := ['$', '1'] ++ separator ++ ['$', '2']

/-! ## Matching at one position -/

section Digits

variable {digits rest : List Char}

private theorem threeDigits_digits_append (allDigits : ∀ c ∈ digits, c.isDigit = true)
    (stop : ∀ c ∈ rest.head?, c.isDigit = false) :
    threeDigits (digits ++ rest) = decide (3 ≤ digits.length) := by
  match digits, rest with
  | a :: b :: c :: _, _ =>
    simp_all [threeDigits]
  | [], [] | [_], [] | [_, _], [] => rfl
  | [], [_] | [], [_, _] | [_], [_] => simp [threeDigits]
  | [], r :: s :: t :: _ | [_], r :: s :: _ | [_, _], r :: _ => simp_all [threeDigits]

private theorem backtrack_skip (input : List Char) (count : Nat) :
    ∀ skipped, (∀ j, count < j → j ≤ count + skipped → threeDigits (input.drop j) = false) →
      backtrack input (count + skipped) = backtrack input count
  | 0, _ => rfl
  | skipped + 1, fails => by
    rw [← Nat.add_assoc, backtrack, if_neg (by simp [fails (count + skipped + 1) (by omega) le_rfl]),
      backtrack_skip input count skipped fun j above below => fails j above (by omega)]

/-- On a run of digits that stops before `rest`, the pattern matches exactly
when the run has four digits or more, and then captures all of it but the
last three digits, and those three. -/
theorem matchAt_digits_append (allDigits : ∀ c ∈ digits, c.isDigit = true)
    (stop : ∀ c ∈ rest.head?, c.isDigit = false) :
    matchAt (digits ++ rest) =
      if 4 ≤ digits.length then
        some (digits.take (digits.length - 3), digits.drop (digits.length - 3))
      else none := by
  have run : (digits ++ rest).takeWhile Char.isDigit = digits := by
    rw [List.takeWhile_append_of_pos allDigits]
    cases rest with
    | nil => simp
    | cons r _ => simp [List.takeWhile_cons, stop r rfl]
  have three : ∀ j ≤ digits.length,
      threeDigits ((digits ++ rest).drop j) = decide (j + 3 ≤ digits.length) := fun j within => by
    rw [List.drop_append_of_le_length within,
      threeDigits_digits_append (fun c member => allDigits c (List.mem_of_mem_drop member)) stop]
    simp only [List.length_drop]
    exact decide_eq_decide.mpr (by omega)
  unfold matchAt
  rw [run]
  split
  · rename_i long
    obtain ⟨count, counted⟩ : ∃ count, digits.length = count + 1 + 3 := ⟨digits.length - 4, by omega⟩
    have within : count + 1 ≤ digits.length := by omega
    have skipped : backtrack (digits ++ rest) digits.length = backtrack (digits ++ rest) (count + 1) := by
      rw [counted]
      exact backtrack_skip _ _ 3 fun j above below => by rw [three j (by omega)]; simpa using by omega
    rw [skipped, backtrack, if_pos (by rw [three _ within]; simpa using by omega),
      List.take_append_of_le_length within, List.drop_append_of_le_length within,
      List.take_left' (by simp; omega), show digits.length - 3 = count + 1 by omega]
  · have skipped := backtrack_skip (digits ++ rest) 0 digits.length fun j _ below => by
      rw [three j (by omega)]; simpa using by omega
    rw [Nat.zero_add] at skipped
    rw [skipped]
    rfl

end Digits

/-! ## The leftmost match -/

private theorem execFrom_cons (c : Char) (rest : List Char) (index : Nat) :
    execFrom (c :: rest) index =
      match matchAt (c :: rest) with
      | some captures => some (index, captures)
      | none => execFrom rest (index + 1) := rfl

theorem execFrom_nonDigits_append {chars : List Char} (nonDigits : ∀ c ∈ chars, c.isDigit = false)
    (rest : List Char) (index : Nat) :
    execFrom (chars ++ rest) index = execFrom rest (index + chars.length) := by
  induction chars generalizing index with
  | nil => rfl
  | cons c chars ih =>
    have noMatch : matchAt (c :: (chars ++ rest)) = none := by
      simp [matchAt, List.takeWhile_cons, nonDigits c (List.mem_cons_self c chars), backtrack]
    rw [List.cons_append, execFrom_cons, noMatch,
      ih (fun d member => nonDigits d (List.mem_cons_of_mem c member)), List.length_cons]
    simp only [Nat.add_comm chars.length 1, Nat.add_assoc]

section Run

variable {digits rest : List Char} (allDigits : ∀ c ∈ digits, c.isDigit = true)
  (stop : ∀ c ∈ rest.head?, c.isDigit = false)
include allDigits stop

/-- A run of at most three digits holds no match: the scan goes on after it. -/
theorem execFrom_short_digits_append (short : digits.length ≤ 3) (index : Nat) :
    execFrom (digits ++ rest) index = execFrom rest (index + digits.length) := by
  induction digits generalizing index with
  | nil => rfl
  | cons d digits ih =>
    have noMatch : matchAt (d :: digits ++ rest) = none := by
      rw [matchAt_digits_append allDigits stop, if_neg (by omega)]
    rw [List.cons_append, execFrom_cons, ← List.cons_append, noMatch,
      ih (fun c member => allDigits c (List.mem_cons_of_mem d member)) (by simp at short; omega),
      List.length_cons]
    simp only [Nat.add_comm digits.length 1, Nat.add_assoc]

/-- A run of four digits or more is the leftmost match when it is where the
scan starts. -/
theorem execFrom_long_digits_append (long : 4 ≤ digits.length) (index : Nat) :
    execFrom (digits ++ rest) index =
      some (index, digits.take (digits.length - 3), digits.drop (digits.length - 3)) := by
  cases digits with
  | nil => simp at long
  | cons d digits =>
    rw [List.cons_append, execFrom_cons, ← List.cons_append, matchAt_digits_append allDigits stop,
      if_pos long]

end Run

/-! ## Text in the shape `formatNumber` keeps -/

/-- The groups after the leading digits, each behind the separator. -/
def separated (separator : List Char) (groups : List (List Char)) : List Char :=
  (groups.map (separator ++ ·)).flatten

/-- Groups of exactly three digits. -/
def ThreeDigitGroups (groups : List (List Char)) : Prop :=
  ∀ group ∈ groups, group.length = 3 ∧ ∀ c ∈ group, c.isDigit = true

@[simp] theorem separated_nil (separator : List Char) : separated separator [] = [] := rfl

@[simp] theorem separated_cons (separator group : List Char) (groups : List (List Char)) :
    separated separator (group :: groups) = separator ++ group ++ separated separator groups := by
  simp [separated]

section Separated

variable {separator : List Char} (nonempty : separator ≠ [])
  (noDigit : ∀ c ∈ separator, c.isDigit = false)
include nonempty noDigit

theorem separated_head_nonDigit (groups : List (List Char)) :
    ∀ c ∈ (separated separator groups).head?, c.isDigit = false := by
  cases groups with
  | nil => simp
  | cons group groups =>
    obtain ⟨s, more, rfl⟩ := List.exists_cons_of_ne_nil nonempty
    simpa using noDigit s (List.mem_cons_self s more)

/-- Behind the leading digits the scan finds nothing: every run of digits
there has three digits and stops at a separator or at the end. -/
theorem execFrom_separated {groups : List (List Char)} (grouped : ThreeDigitGroups groups)
    (index : Nat) : execFrom (separated separator groups) index = none := by
  induction groups generalizing index with
  | nil => rfl
  | cons group groups ih =>
    obtain ⟨three, digits⟩ := grouped group (List.mem_cons_self group groups)
    rw [separated_cons, List.append_assoc, execFrom_nonDigits_append noDigit,
      execFrom_short_digits_append digits (separated_head_nonDigit nonempty noDigit groups)
        (by omega),
      ih fun g member => grouped g (List.mem_cons_of_mem group member)]

end Separated

theorem head_nil_nonDigit : ∀ c ∈ ([] : List Char).head?, c.isDigit = false := by simp

section Shaped

variable {sign lead rest : List Char} (signNonDigit : ∀ c ∈ sign, c.isDigit = false)
  (leadDigits : ∀ c ∈ lead, c.isDigit = true) (stop : ∀ c ∈ rest.head?, c.isDigit = false)
include signNonDigit leadDigits stop

/-- After a sign, a leading run of four digits or more is the match, split
before its last three digits. -/
theorem exec_long_lead (long : 4 ≤ lead.length) :
    exec (sign ++ lead ++ rest) =
      some (sign.length, lead.take (lead.length - 3), lead.drop (lead.length - 3)) := by
  rw [exec, List.append_assoc, execFrom_nonDigits_append signNonDigit,
    execFrom_long_digits_append leadDigits stop long, Nat.zero_add]

/-- After a sign, a leading run of at most three digits is skipped. -/
theorem exec_short_lead (short : lead.length ≤ 3) :
    exec (sign ++ lead ++ rest) = execFrom rest (sign.length + lead.length) := by
  rw [exec, List.append_assoc, execFrom_nonDigits_append signNonDigit,
    execFrom_short_digits_append leadDigits stop short, Nat.zero_add]

end Shaped

/-! ## The substituted template -/

section Substitution

variable (matched str : List Char) (position : Nat) (captures : List (List Char))

theorem substitute_text_append {chars : List Char} (noDollar : '$' ∉ chars) (rest : List Char) :
    substitute matched str position captures .text (chars ++ rest) =
      chars ++ substitute matched str position captures .text rest := by
  induction chars with
  | nil => rfl
  | cons c chars ih =>
    have notDollar : c ≠ '$' := fun same => noDollar (same ▸ List.mem_cons_self c chars)
    rw [List.cons_append, substitute, if_neg notDollar, ih (fun member => noDollar
      (List.mem_cons_of_mem c member)), List.cons_append]

/-- With two captures, `$1` is always the first capture: a digit after it
would make a two-digit number above `2`. So a separator without `$` comes out
as it is, between the two captures. -/
theorem getSubstitution_template {separator : List Char} (noDollar : '$' ∉ separator)
    (first last : List Char) :
    getSubstitution matched str position [first, last] (template separator) =
      first ++ separator ++ last := by
  have one : oneDigitReference [first, last] '1' = first := rfl
  have two : oneDigitReference [first, last] '2' = last := rfl
  cases separator with
  | nil => simp [getSubstitution, template, substitute, graveAccent, apostrophe, one, two]
  | cons s more =>
    have notDollar : s ≠ '$' := fun same => noDollar (same ▸ List.mem_cons_self s more)
    have tooLarge : ¬(s.isDigit ∧ 10 * digitValue '1' + digitValue s ≤ [first, last].length) :=
      fun ⟨_, bound⟩ => by simp [digitValue] at bound; omega
    simp only [getSubstitution, template, List.cons_append, List.nil_append, List.append_eq,
      substitute, if_pos rfl, graveAccent, apostrophe]
    simp only [show ('1' : Char) ≠ '$' by decide, show ('1' : Char) ≠ Char.ofNat 96 by decide,
      show ('1' : Char) ≠ '&' by decide, show ('1' : Char) ≠ Char.ofNat 39 by decide,
      show ('1' : Char).isDigit = true by decide, if_false, if_true, if_neg tooLarge,
      if_neg notDollar, one]
    rw [substitute_text_append matched str position [first, last]
      (fun member => noDollar (List.mem_cons_of_mem s member))]
    simp [substitute, graveAccent, apostrophe, two]

end Substitution

/-- `formatNumber`'s replace on a leading run of four digits or more: the
separator goes in before the run's last three digits, and nothing else
changes. -/
theorem replace_long_lead {separator sign lead rest : List Char}
    (signNonDigit : ∀ c ∈ sign, c.isDigit = false) (leadDigits : ∀ c ∈ lead, c.isDigit = true)
    (stop : ∀ c ∈ rest.head?, c.isDigit = false) (long : 4 ≤ lead.length)
    (noDollar : '$' ∉ separator) :
    replace (sign ++ lead ++ rest) (template separator) =
      sign ++ lead.take (lead.length - 3) ++ (separator ++ lead.drop (lead.length - 3) ++ rest) := by
  rw [replace, exec_long_lead signNonDigit leadDigits stop long]
  simp [getSubstitution_template _ _ _ noDollar, List.drop_append]

end OvsFrontend.FormatNumber

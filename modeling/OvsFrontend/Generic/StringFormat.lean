import Mathlib.Data.List.Basic
import OvsFrontend.Generic.NumberSort

/-! `String.prototype.format` (generic.js) fills placeholders. It calls
`this.replace(String.prototype.format.regex, callback)` with the global regex
`/{-?[0-9]+}/g`. The callback reads the number between the braces: a number
`n ≥ 0` gives the `n`-th argument, `-1` gives `{`, `-2` gives `}`, and any
other number gives the empty text.

With a global regex, `String.prototype.replace` first finds every match of
the original text from left to right. Each search starts where the previous
match ended. It then puts the callback's texts in place of the matches, so
those texts are never searched.

Writing every `{` as `{-1}` and every `}` as `{-2}` is therefore an escape
that `format` undoes, whatever the arguments. The matches in the escaped text
are exactly the escape tokens (`format_escapeBraces`). -/
namespace OvsFrontend.StringFormat

open OvsFrontend.NumberSort (parseInt)

/-- `[0-9]+}` at the start of `input`: the digits and the text after the `}`. -/
def digitsThenClose (input : List Char) : Option (List Char × List Char) :=
  match input.dropWhile Char.isDigit with
  | d :: after =>
    if d = '}' ∧ input.takeWhile Char.isDigit ≠ [] then some (input.takeWhile Char.isDigit, after)
    else none
  | [] => none

/-- `/{-?[0-9]+}/` tried at the start of `input`: the matched text and the
text after it. Backtracking adds nothing to the greedy reading: giving back
the `-` leaves `-` where a digit is needed, and giving back a digit leaves a
digit where `}` is needed. -/
def tokenAt : List Char → Option (List Char × List Char)
  | [] => none
  | c :: rest =>
    if c = '{' then
      if rest.head? = some '-' then
        (digitsThenClose rest.tail).map fun (digits, after) => ('{' :: '-' :: digits ++ ['}'], after)
      else (digitsThenClose rest).map fun (digits, after) => ('{' :: digits ++ ['}'], after)
    else none

/-- `RegExpBuiltinExec` from the current position: the leftmost match in
`input`, as the text before it, the matched text and the text after it. -/
def nextMatch : List Char → Option (List Char × List Char × List Char)
  | [] => none
  | c :: rest =>
    match tokenAt (c :: rest) with
    | some (item, after) => some ([], item, after)
    | none => (nextMatch rest).map fun (skipped, item, after) => (c :: skipped, item, after)

theorem digitsThenClose_after_lt {input digits after : List Char}
    (found : digitsThenClose input = some (digits, after)) : after.length < input.length := by
  unfold digitsThenClose at found
  split at found
  · rename_i d after' dropped
    split_ifs at found
    cases found
    have shorter := (List.dropWhile_suffix Char.isDigit (l := input)).length_le
    rw [dropped, List.length_cons] at shorter
    omega
  · cases found

theorem tokenAt_after_lt {input item after : List Char}
    (found : tokenAt input = some (item, after)) : after.length < input.length := by
  match input, found with
  | c :: rest, found =>
    simp only [tokenAt] at found
    split_ifs at found
    all_goals
      obtain ⟨⟨digits, after'⟩, closed, same⟩ := Option.map_eq_some'.mp found
      cases same
      have := digitsThenClose_after_lt closed
      simp only [List.length_tail, List.length_cons] at this ⊢
      omega

theorem nextMatch_after_lt :
    ∀ {input skipped item after : List Char}, nextMatch input = some (skipped, item, after) →
      after.length < input.length
  | c :: rest, skipped, item, after, found => by
    simp only [nextMatch] at found
    split at found
    · cases found
      exact tokenAt_after_lt ‹_›
    · obtain ⟨⟨skipped', item', after'⟩, later, same⟩ := Option.map_eq_some'.mp found
      cases same
      exact Nat.lt_succ_of_lt (nextMatch_after_lt later)

/-- The search loop of `RegExp.prototype[@@replace]` for the global regex:
every match from left to right, as the text skipped before it and the
matched text, and the text after the last match. Each search starts where
the previous match ended. -/
def allMatches (input : List Char) : List (List Char × List Char) × List Char :=
  match found : nextMatch input with
  | none => ([], input)
  | some (skipped, item, after) =>
    have := nextMatch_after_lt found
    ((skipped, item) :: (allMatches after).1, (allMatches after).2)
termination_by input.length

/-- `parseInt` of the text between the braces, an optional `-` and decimal
digits; `none` is `NaN`. -/
def tokenValue (inner : List Char) : Option Int :=
  if inner.head? = some '-' then (parseInt ⟨inner.tail⟩).map fun n => -(n : Int)
  else (parseInt ⟨inner⟩).map Int.ofNat

/-- The callback for the matched text `item`, with
`intVal = parseInt(item.substring(1, item.length - 1))`. Each argument is
given as the text `replace` makes of it; `args[intVal]` past the arguments is
`undefined`, which becomes the text `undefined`. -/
def replacement (args : List String) (item : List Char) : List Char :=
  match tokenValue item.tail.dropLast with
  | some intVal =>
    if 0 ≤ intVal then ((args.get? intVal.toNat).getD "undefined").data
    else if intVal = -1 then ['{']
    else if intVal = -2 then ['}']
    else []
  | none => []

/-- The result of `replace`: every match replaced by the callback's text,
everything else copied. -/
def replaceAll (args : List String) (input : List Char) : List Char :=
  (allMatches input).1.foldr (fun (skipped, item) rest => skipped ++ replacement args item ++ rest)
    (allMatches input).2

/-- `String.prototype.format` called on `this` with `args`. -/
def format (this : String) (args : List String) : String := ⟨replaceAll args this.data⟩

/-! ## One search at a time -/

theorem allMatches_of_none {input : List Char} (found : nextMatch input = none) :
    allMatches input = ([], input) := by
  rw [allMatches]; split <;> simp_all

theorem allMatches_of_some {input skipped item after : List Char}
    (found : nextMatch input = some (skipped, item, after)) :
    allMatches input = ((skipped, item) :: (allMatches after).1, (allMatches after).2) := by
  rw [allMatches]; split <;> simp_all

theorem nextMatch_cons_of_ne {c : Char} (plain : c ≠ '{') (rest : List Char) :
    nextMatch (c :: rest) =
      (nextMatch rest).map fun (skipped, item, after) => (c :: skipped, item, after) := by
  simp only [nextMatch, tokenAt, if_neg plain]

/-- A character that cannot open a match is copied, and the matches are
those of the rest. -/
theorem allMatches_cons_of_ne {c : Char} (plain : c ≠ '{') (rest : List Char) (args : List String) :
    (allMatches (c :: rest)).1.map Prod.snd = (allMatches rest).1.map Prod.snd ∧
      replaceAll args (c :: rest) = c :: replaceAll args rest := by
  cases found : nextMatch rest with
  | none =>
    have found' : nextMatch (c :: rest) = none := by rw [nextMatch_cons_of_ne plain, found]; rfl
    simp only [replaceAll, allMatches_of_none found, allMatches_of_none found', List.foldr_nil,
      and_self]
  | some next =>
    obtain ⟨skipped, item, after⟩ := next
    have found' : nextMatch (c :: rest) = some (c :: skipped, item, after) := by
      rw [nextMatch_cons_of_ne plain, found]; rfl
    simp only [replaceAll, allMatches_of_some found, allMatches_of_some found', List.foldr_cons,
      List.map_cons, List.cons_append, and_self]

/-! ## Placeholders -/

theorem digitsThenClose_digits {ds : List Char} (digits : ∀ d ∈ ds, d.isDigit) (nonempty : ds ≠ [])
    (rest : List Char) : digitsThenClose (ds ++ '}' :: rest) = some (ds, rest) := by
  have closing : ('}' :: rest).takeWhile Char.isDigit = [] ∧
      ('}' :: rest).dropWhile Char.isDigit = '}' :: rest := ⟨rfl, rfl⟩
  rw [digitsThenClose, List.dropWhile_append_of_pos digits, List.takeWhile_append_of_pos digits,
    closing.1, closing.2, List.append_nil]
  exact if_pos ⟨rfl, nonempty⟩

theorem unsigned_of_digits {ds : List Char} (digits : ∀ d ∈ ds, d.isDigit) (rest : List Char) :
    (ds ++ rest).head? ≠ some '-' ∨ ds = [] := by
  cases ds with
  | nil => exact Or.inr rfl
  | cons d ds =>
    refine Or.inl fun signed => ?_
    cases Option.some.inj signed
    exact absurd (digits '-' (List.mem_cons_self _ _)) (by decide)

/-- A placeholder `{ds}` of decimal digits is one whole match. -/
theorem nextMatch_placeholder {ds : List Char} (digits : ∀ d ∈ ds, d.isDigit) (nonempty : ds ≠ [])
    (rest : List Char) :
    nextMatch ('{' :: ds ++ '}' :: rest) = some ([], '{' :: ds ++ ['}'], rest) := by
  have unsigned := (unsigned_of_digits digits ('}' :: rest)).resolve_right nonempty
  have token : tokenAt ('{' :: ds ++ '}' :: rest) = some ('{' :: ds ++ ['}'], rest) := by
    rw [List.cons_append, tokenAt, if_pos rfl, if_neg unsigned,
      digitsThenClose_digits digits nonempty]
    rfl
  rw [List.cons_append, nextMatch, ← List.cons_append, token]

/-- The callback gives the argument at the index the digits spell, and the
text `undefined` past the arguments. -/
theorem replacement_placeholder {ds : List Char} {n : Nat} (args : List String)
    (digits : ∀ d ∈ ds, d.isDigit) (index : parseInt ⟨ds⟩ = some n) :
    replacement args ('{' :: ds ++ ['}']) = ((args.get? n).getD "undefined").data := by
  have unsigned : ds.head? ≠ some '-' := by
    simpa using (unsigned_of_digits digits []).resolve_right (by rintro rfl; cases index)
  rw [replacement, List.cons_append, List.tail_cons, List.dropLast_concat, tokenValue,
    if_neg unsigned, index]
  rfl

/-- What `format` is for: when the text before a placeholder `{ds}` has no
`{`, that text is copied, the placeholder gives the argument at the index the
digits spell (`undefined` past the arguments), and the rest is formatted on
its own. -/
theorem replaceAll_placeholder {plain ds rest : List Char} {n : Nat} (args : List String)
    (noOpen : '{' ∉ plain) (digits : ∀ d ∈ ds, d.isDigit) (index : parseInt ⟨ds⟩ = some n) :
    replaceAll args (plain ++ '{' :: ds ++ '}' :: rest) =
      plain ++ ((args.get? n).getD "undefined").data ++ replaceAll args rest := by
  induction plain with
  | nil =>
    have nonempty : ds ≠ [] := by rintro rfl; cases index
    simp only [List.nil_append, replaceAll,
      allMatches_of_some (nextMatch_placeholder digits nonempty rest), List.foldr_cons,
      replacement_placeholder args digits index]
  | cons c plain ih =>
    have plainHead : c ≠ '{' := fun same => noOpen (same ▸ List.mem_cons_self c plain)
    simp only [List.cons_append]
    rw [(allMatches_cons_of_ne plainHead _ args).2,
      ih fun inPlain => noOpen (List.mem_cons_of_mem c inPlain)]

theorem replaceAll_placeholder_on_second_argument :
    '{' ∉ ['n', ' '] ∧ (∀ d ∈ ['1'], d.isDigit) ∧ parseInt ⟨['1']⟩ = some 1 ∧
      replaceAll ["a", "b"] (['n', ' '] ++ '{' :: ['1'] ++ '}' :: []) =
        ['n', ' '] ++ ((["a", "b"].get? 1).getD "undefined").data ++ replaceAll ["a", "b"] [] :=
  ⟨by decide, by decide, rfl, replaceAll_placeholder ["a", "b"] (by decide) (by decide) rfl⟩

/-! ## Escaping the braces -/

/-- The escape `format` allows for a brace: `{` is written `{-1}` and `}` is
written `{-2}`. -/
def escapeChar (c : Char) : List Char :=
  if c = '{' then ['{', '-', '1', '}'] else if c = '}' then ['{', '-', '2', '}'] else [c]

/-- The text `s` with both braces escaped. -/
def escapeBraces (s : String) : String := ⟨s.data.flatMap escapeChar⟩

/-- An escaped brace is one whole match, which the callback turns back into
the brace. -/
theorem escapeChar_brace {b : Char} (brace : b = '{' ∨ b = '}') (rest : List Char)
    (args : List String) :
    nextMatch (escapeChar b ++ rest) = some ([], escapeChar b, rest) ∧
      replacement args (escapeChar b) = [b] := by
  rcases brace with rfl | rfl <;> exact ⟨rfl, rfl⟩

/-- One character of the original text: its escape is a match exactly when
the character is a brace, and gives the character back. -/
theorem escapeChar_step (c : Char) (rest : List Char) (args : List String) :
    (allMatches (escapeChar c ++ rest)).1.map Prod.snd =
        ([c].filter fun c => c = '{' ∨ c = '}').map escapeChar ++ (allMatches rest).1.map Prod.snd ∧
      replaceAll args (escapeChar c ++ rest) = c :: replaceAll args rest := by
  rw [List.filter_singleton]
  by_cases brace : c = '{' ∨ c = '}'
  · obtain ⟨found, back⟩ := escapeChar_brace brace rest args
    simp only [replaceAll, allMatches_of_some found, List.map_cons, List.foldr_cons, back,
      List.nil_append, List.singleton_append, decide_eq_true brace, cond_true, List.map_nil,
      and_self]
  · have copied : escapeChar c = [c] := by
      simp only [escapeChar, if_neg fun same => brace (Or.inl same),
        if_neg fun same => brace (Or.inr same)]
    rw [copied, List.singleton_append, decide_eq_false brace, cond_false, List.map_nil,
      List.nil_append]
    exact allMatches_cons_of_ne (fun same => brace (Or.inl same)) rest args

theorem escape_matches_and_back (args : List String) :
    ∀ chars : List Char,
      (allMatches (chars.flatMap escapeChar)).1.map Prod.snd =
          (chars.filter fun c => c = '{' ∨ c = '}').map escapeChar ∧
        replaceAll args (chars.flatMap escapeChar) = chars
  | [] => by
    have none_found : nextMatch [] = none := rfl
    simp only [List.flatMap_nil, replaceAll, allMatches_of_none none_found, List.foldr_nil,
      List.map_nil, List.filter_nil, and_self]
  | c :: rest => by
    obtain ⟨matched, back⟩ := escapeChar_step c (rest.flatMap escapeChar) args
    obtain ⟨matched', back'⟩ := escape_matches_and_back args rest
    rw [List.flatMap_cons, matched, back, matched', back', ← List.map_append, ← List.filter_append,
      List.singleton_append]
    exact ⟨rfl, rfl⟩

/-- Whatever the arguments, `format` undoes the escape of both braces: the
matches of the regex in the escaped text are exactly the escapes of the
braces of `s`, in order, and each turns back into its brace. -/
theorem format_escapeBraces (s : String) (args : List String) :
    format (escapeBraces s) args = s ∧
      (allMatches (escapeBraces s).data).1.map Prod.snd =
        (s.data.filter fun c => c = '{' ∨ c = '}').map escapeChar :=
  ⟨congrArg String.mk (escape_matches_and_back args s.data).2,
    (escape_matches_and_back args s.data).1⟩

end OvsFrontend.StringFormat

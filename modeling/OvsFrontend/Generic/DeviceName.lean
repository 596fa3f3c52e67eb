import Mathlib.Data.List.Infix

/-! `generic.cleanDeviceName` turns a name into a device file name: it strips
leading and trailing slashes, turns blanks into underscores, drops every
character outside `[a-zA-Z0-9-_./]`, collapses `//` until none is left, and
appends `.raw` unless the name is longer than four characters and already
ends with it. The slashes are stripped before the invalid characters are
dropped, so a slash that an invalid character shielded survives at either
end, and a name that is only `.raw` gets a second one
(`cleanDeviceName_not_canonical`). What always holds: only allowed characters,
no `//`, and the `.raw` suffix (`cleanDeviceName_allowed_suffix`). -/
namespace OvsFrontend.DeviceName

/-! ## The code -/

/-- `name.replace(/^(\/)+|(\/)+$/g, '')`: the global replace removes the run
of slashes the name starts with and the run it ends with. -/
def stripSlashes (name : List Char) : List Char :=
  ((name.dropWhile (· = '/')).reverse.dropWhile (· = '/')).reverse

/-- `.replace(/ /g, "_")`. -/
def underscoreBlanks (name : List Char) : List Char :=
  name.map fun c => if c = ' ' then '_' else c

/-- The class `[a-zA-Z0-9-_\.\/]`. -/
def allowedChar (c : Char) : Bool :=
  c.isAlpha || c.isDigit || c = '-' || c = '_' || c = '.' || c = '/'

/-- `.replace(/[^a-zA-Z0-9-_\.\/]+/g, "")`. -/
def removeInvalid (name : List Char) : List Char := name.filter allowedChar

/-- `cleaned.indexOf('//') > -1`. -/
def hasDoubleSlash : List Char → Bool
  | a :: b :: rest => (a = '/' && b = '/') || hasDoubleSlash (b :: rest)
  | _ => false

/-- `cleaned.replace(/\/\//g, '/')`: every `//`, taken from the left without
overlap, becomes `/`. -/
def replaceDoubleSlash : List Char → List Char
  | a :: b :: rest =>
    if a = '/' ∧ b = '/' then '/' :: replaceDoubleSlash rest else a :: replaceDoubleSlash (b :: rest)
  | short => short

/-- The `while` loop over `//`, for at most `fuel` turns; every turn shortens
the name, so `cleaned.length` turns are enough (`collapseSlashes_exits`). -/
def collapseSlashes : Nat → List Char → List Char
  | 0, cleaned => cleaned
  | fuel + 1, cleaned =>
    if hasDoubleSlash cleaned then collapseSlashes fuel (replaceDoubleSlash cleaned) else cleaned

/-- `generic.cleanDeviceName(name)`. -/
def cleanDeviceName (name : String) : String :=
  let cleaned := removeInvalid (underscoreBlanks (stripSlashes name.data))
  let cleaned := collapseSlashes cleaned.length cleaned
  if cleaned.length > 4 ∧ cleaned.drop (cleaned.length - 4) = ".raw".data then ⟨cleaned⟩
  else ⟨cleaned ++ ".raw".data⟩

/-- The slashes survive where an invalid character shielded them, and `.raw`
alone is not recognised as a suffix: `'$/a'` gives `/a.raw`, `'a/$'` gives
`a/.raw`, and `''` gives `.raw`, which is cleaned again to `.raw.raw`. -/
theorem cleanDeviceName_not_canonical :
    cleanDeviceName "$/a" = "/a.raw" ∧ cleanDeviceName "a/$" = "a/.raw" ∧
      cleanDeviceName "" = ".raw" ∧ cleanDeviceName ".raw" = ".raw.raw" := by
  decide

/-! ## What always holds -/

theorem replaceDoubleSlash_sublist : ∀ cleaned : List Char, (replaceDoubleSlash cleaned).Sublist cleaned
  | a :: b :: rest => by
    rw [replaceDoubleSlash]
    split_ifs with double
    · obtain ⟨rfl, rfl⟩ := double
      exact ((replaceDoubleSlash_sublist rest).cons _).cons₂ _
    · exact (replaceDoubleSlash_sublist (b :: rest)).cons₂ a
  | [] | [_] => by simp [replaceDoubleSlash]

/-- A turn of the loop shortens a name that holds `//`. -/
theorem replaceDoubleSlash_shorter :
    ∀ cleaned : List Char, hasDoubleSlash cleaned = true →
      (replaceDoubleSlash cleaned).length < cleaned.length
  | a :: b :: rest, double => by
    rw [replaceDoubleSlash]
    split_ifs with pair
    · simpa using Nat.lt_succ_of_le (replaceDoubleSlash_sublist rest).length_le
    · have later : hasDoubleSlash (b :: rest) = true := by
        simpa [hasDoubleSlash, pair] using double
      simpa using replaceDoubleSlash_shorter (b :: rest) later

theorem collapseSlashes_sublist :
    ∀ (fuel : Nat) (cleaned : List Char), (collapseSlashes fuel cleaned).Sublist cleaned
  | 0, _ => List.Sublist.refl _
  | fuel + 1, cleaned => by
    rw [collapseSlashes]
    split_ifs
    · exact (collapseSlashes_sublist fuel _).trans (replaceDoubleSlash_sublist cleaned)
    · exact List.Sublist.refl _

/-- With a turn per character the loop ends by its own test: no `//` is
left. -/
theorem collapseSlashes_exits :
    ∀ (fuel : Nat) (cleaned : List Char), cleaned.length ≤ fuel →
      hasDoubleSlash (collapseSlashes fuel cleaned) = false
  | 0, [], _ => rfl
  | fuel + 1, cleaned, enough => by
    rw [collapseSlashes]
    split_ifs with double
    · exact collapseSlashes_exits fuel _ (by have := replaceDoubleSlash_shorter cleaned double; omega)
    · simpa using double

theorem hasDoubleSlash_tail {a : Char} {rest : List Char} (noDouble : hasDoubleSlash (a :: rest) = false) :
    hasDoubleSlash rest = false := by
  cases rest with
  | nil => rfl
  | cons b rest => simp_all [hasDoubleSlash]

/-- Appending `.raw` creates no `//`. -/
theorem hasDoubleSlash_append_raw :
    ∀ cleaned : List Char, hasDoubleSlash cleaned = false →
      hasDoubleSlash (cleaned ++ ".raw".data) = false
  | [], _ => by decide
  | [a], _ => by simp [hasDoubleSlash]
  | a :: b :: rest, noDouble => by
    have later := hasDoubleSlash_append_raw (b :: rest) (hasDoubleSlash_tail noDouble)
    simp only [hasDoubleSlash, Bool.or_eq_false_iff] at noDouble
    simp only [List.cons_append, hasDoubleSlash, Bool.or_eq_false_iff]
    exact ⟨noDouble.1, by simpa using later⟩

/-- Whatever the name, the result holds only characters of
`[a-zA-Z0-9-_./]`, no `//`, and ends with `.raw`. -/
theorem cleanDeviceName_allowed_suffix (name : String) :
    (∀ c ∈ (cleanDeviceName name).data, allowedChar c = true) ∧
      hasDoubleSlash (cleanDeviceName name).data = false ∧
      ".raw".data.IsSuffix (cleanDeviceName name).data := by
  have filtered : ∀ c ∈ removeInvalid (underscoreBlanks (stripSlashes name.data)),
      allowedChar c = true := fun c member => List.of_mem_filter member
  unfold cleanDeviceName
  generalize removeInvalid (underscoreBlanks (stripSlashes name.data)) = cleaned at filtered ⊢
  have allowed : ∀ c ∈ collapseSlashes cleaned.length cleaned, allowedChar c = true :=
    fun c member => filtered c ((collapseSlashes_sublist _ _).subset member)
  have collapsed := collapseSlashes_exits cleaned.length cleaned le_rfl
  dsimp only
  split_ifs with recognised
  · exact ⟨allowed, collapsed, recognised.2 ▸ List.drop_suffix _ _⟩
  · refine ⟨fun c member => ?_, hasDoubleSlash_append_raw _ collapsed, List.suffix_append _ _⟩
    rcases List.mem_append.mp member with kept | added
    · exact allowed c kept
    · exact (by decide : ∀ c ∈ ".raw".data, allowedChar c = true) c added

end OvsFrontend.DeviceName

import Mathlib.Data.List.Sort
import Mathlib.Order.Basic

/-! The three halving searches `generic.js` patches onto `Array.prototype`:
`brSearch`, which recurses on slices and rebuilds the index on the way out,
and `brSearchFirst` / `brSearchLast`, which recurse on an inclusive
`[start, end]` window of one array and accept the middle only when its
neighbour shows it is the first (last) copy of the value. Items are read
through `getItemUnwrap`, so every comparison sees the projection `project`
(the item unwrapped, then its field `prop` when one is given) and
`undefined` outside the array. Each search is total; on input sorted by
`project` it finds the value when present, the first and last copy exactly,
and returns `-1` otherwise. A window given by the caller is searched only for
the first (last) copy of the whole array: a window inside a run of copies
finds nothing (`brSearch_window_inside_run`, `brSearchFirst_window`). -/
namespace OvsFrontend.Search

variable {α β : Type} [LinearOrder β]

/-! ## The code -/

/-- `Array.prototype.getItemUnwrap(index, prop)`: `undefined` outside the
array, otherwise the item seen through `project`. -/
def getItemUnwrap (items : List α) (project : α → β) (index : Int) : Option β :=
  if index > items.length - 1 ∨ index < 0 then none else (items[index.toNat]?).map project

/-- JavaScript `value > item` against an item that may be `undefined`, which
compares false. -/
def jsGt (value : β) : Option β → Bool
  | some item => decide (item < value)
  | none => false

/-- JavaScript `value < item`, false against `undefined`. -/
def jsLt (value : β) : Option β → Bool
  | some item => decide (value < item)
  | none => false

/-- `Array.prototype.brSearch(value, prop)`: compare with the middle item and
search the slice on the side `value > middleItem` points to, shifting an
index found in the upper slice back by `middleIndex + 1`. -/
def brSearch (items : List α) (value : β) (project : α → β) : Int :=
  if empty : items.length = 0 then -1 else
  let middleIndex := items.length / 2
  let middleItem := getItemUnwrap items project middleIndex
  if items.length = 1 ∧ middleItem ≠ some value then -1
  else if some value = middleItem then middleIndex
  else if jsGt value middleItem then
    let additionalIndex := brSearch (items.drop (middleIndex + 1)) value project
    if additionalIndex = -1 then -1 else middleIndex + 1 + additionalIndex
  else brSearch (items.take middleIndex) value project
termination_by items.length
decreasing_by all_goals simp only [List.length_drop, List.length_take]; omega

/-- `Array.prototype.brSearchFirst` once `start` and `end` are set. -/
def brSearchFirstIn (items : List α) (value : β) (project : α → β) (start endIndex : Int) : Int :=
  if endIndex < start then -1 else
  let middleIndex := start + (endIndex - start) / 2
  let middleItem := getItemUnwrap items project middleIndex
  let previousItem := getItemUnwrap items project (middleIndex - 1)
  if (previousItem = none ∨ jsGt value previousItem) ∧ middleItem = some value then middleIndex
  else if jsGt value middleItem then brSearchFirstIn items value project (middleIndex + 1) endIndex
  else brSearchFirstIn items value project start (middleIndex - 1)
termination_by (endIndex + 1 - start).toNat
decreasing_by all_goals omega

/-- `Array.prototype.brSearchFirst(value, prop, start, end)`: an omitted
`start` is `0` and an omitted `end` is the last index. -/
def brSearchFirst (items : List α) (value : β) (project : α → β) (start endIndex : Option Int) :
    Int :=
  brSearchFirstIn items value project (start.getD 0) (endIndex.getD (items.length - 1))

/-- `Array.prototype.brSearchLast` once `start` and `end` are set. -/
def brSearchLastIn (items : List α) (value : β) (project : α → β) (start endIndex : Int) : Int :=
  if endIndex < start then -1 else
  let middleIndex := start + (endIndex - start) / 2
  let middleItem := getItemUnwrap items project middleIndex
  let nextItem := getItemUnwrap items project (middleIndex + 1)
  if (nextItem = none ∨ jsLt value nextItem) ∧ middleItem = some value then middleIndex
  else if jsLt value middleItem then brSearchLastIn items value project start (middleIndex - 1)
  else brSearchLastIn items value project (middleIndex + 1) endIndex
termination_by (endIndex + 1 - start).toNat
decreasing_by all_goals omega

/-- `Array.prototype.brSearchLast(value, prop, start, end)`, with the same
defaults as `brSearchFirst`. -/
def brSearchLast (items : List α) (value : β) (project : α → β) (start endIndex : Option Int) :
    Int :=
  brSearchLastIn items value project (start.getD 0) (endIndex.getD (items.length - 1))

/-- The callers' precondition, which no search checks: the items are
non-decreasing under `project`. -/
def Sorted (project : α → β) (items : List α) : Prop :=
  items.Pairwise fun earlier later => project earlier ≤ project later

instance (project : α → β) (items : List α) : Decidable (Sorted project items) :=
  inferInstanceAs (Decidable (items.Pairwise _))

/-! ## Reading items -/

omit [LinearOrder β] in
theorem getItemUnwrap_of_lt {items : List α} {project : α → β} {index : Nat}
    (bound : index < items.length) :
    getItemUnwrap items project index = some (project items[index]) := by
  simp only [getItemUnwrap, List.getElem?_eq_getElem bound]
  split_ifs <;> simp_all; omega

omit [LinearOrder β] in
theorem getItemUnwrap_neg {items : List α} {project : α → β} {index : Int} (negative : index < 0) :
    getItemUnwrap items project index = none := by
  simp [getItemUnwrap, negative]

omit [LinearOrder β] in
theorem getItemUnwrap_of_le {items : List α} {project : α → β} {index : Nat}
    (past : items.length ≤ index) : getItemUnwrap items project index = none := by
  simp only [getItemUnwrap]
  split_ifs <;> first | rfl | omega

omit [LinearOrder β] in
/-- Whatever `getItemUnwrap` returns is the projection of an item. -/
theorem mem_of_getItemUnwrap {items : List α} {project : α → β} {index : Int} {item : β}
    (read : getItemUnwrap items project index = some item) : ∃ x ∈ items, project x = item := by
  simp only [getItemUnwrap] at read
  split_ifs at read
  obtain ⟨x, found, rfl⟩ := Option.map_eq_some'.mp read
  exact ⟨x, List.getElem?_mem found, rfl⟩

omit [LinearOrder β] in
theorem getItemUnwrap_eq_some {items : List α} {project : α → β} {index : Int} {item : β}
    (read : getItemUnwrap items project index = some item) :
    ∃ k : Nat, (k : Int) = index ∧ ∃ bound : k < items.length, project items[k] = item := by
  simp only [getItemUnwrap] at read
  split_ifs at read with outside
  obtain ⟨x, found, rfl⟩ := Option.map_eq_some'.mp read
  obtain ⟨bound, rfl⟩ := List.getElem?_eq_some_iff.mp found
  exact ⟨index.toNat, by omega, bound, rfl⟩

omit [LinearOrder β] in
theorem getItemUnwrap_pred {items : List α} {project : α → β} {index : Nat}
    (bound : index < items.length) :
    getItemUnwrap items project ((index : Int) - 1) =
      if index = 0 then none else some (project items[index - 1]) := by
  split_ifs with first
  · exact getItemUnwrap_neg (by omega)
  · rw [show (index : Int) - 1 = ((index - 1 : Nat) : Int) by omega, getItemUnwrap_of_lt]

omit [LinearOrder β] in
theorem getItemUnwrap_succ {items : List α} {project : α → β} {index : Nat} :
    getItemUnwrap items project ((index : Int) + 1) =
      if bound : index + 1 < items.length then some (project items[index + 1]) else none := by
  split_ifs with bound
  · exact_mod_cast getItemUnwrap_of_lt bound
  · exact_mod_cast getItemUnwrap_of_le (by omega)

@[simp] theorem jsGt_some (value item : β) : jsGt value (some item) = decide (item < value) := rfl

@[simp] theorem jsLt_some (value item : β) : jsLt value (some item) = decide (value < item) := rfl

theorem Sorted.le {project : α → β} {items : List α} (sorted : Sorted project items) {i j : Nat}
    (ordered : i ≤ j) (bound : j < items.length) :
    project items[i] ≤ project items[j] := by
  rcases Nat.lt_or_eq_of_le ordered with before | rfl
  · exact List.pairwise_iff_getElem.mp sorted i j _ bound before
  · exact le_rfl

/-- Below the first copy of `value` every item is smaller than `value`. -/
theorem Sorted.lt_of_before_first {project : α → β} {items : List α} (sorted : Sorted project items)
    {value : β} {first : Nat} (bound : first < items.length) (hit : project items[first] = value)
    (beforeFirst : ∀ (j : Nat) (before : j < first), project items[j] ≠ value)
    {j : Nat} (before : j < first) : project items[j] < value :=
  lt_of_le_of_ne (hit ▸ sorted.le before.le bound) (beforeFirst j before)

/-- Above the last copy of `value` every item is greater than `value`. -/
theorem Sorted.gt_of_after_last {project : α → β} {items : List α} (sorted : Sorted project items)
    {value : β} {last : Nat} (bound : last < items.length) (hit : project items[last] = value)
    (afterLast : ∀ (j : Nat) (inside : j < items.length), last < j → project items[j] ≠ value)
    {j : Nat} (inside : j < items.length) (after : last < j) : value < project items[j] :=
  lt_of_le_of_ne (hit ▸ sorted.le after.le inside) (afterLast j inside after).symm

theorem Sorted.drop {project : α → β} {items : List α} (sorted : Sorted project items) (n : Nat) :
    Sorted project (items.drop n) :=
  List.Pairwise.sublist (List.drop_sublist n items) sorted

theorem Sorted.take {project : α → β} {items : List α} (sorted : Sorted project items) (n : Nat) :
    Sorted project (items.take n) :=
  List.Pairwise.sublist (List.take_sublist n items) sorted

/-! ## `brSearch` -/

section BrSearch

variable {value : β} {project : α → β}

theorem brSearch_nil : brSearch ([] : List α) value project = -1 := by
  rw [brSearch]; rfl

/-- One halving step of `brSearch`, with the middle item read. -/
theorem brSearch_step {items : List α} (bound : items.length / 2 < items.length) :
    brSearch items value project =
      if items.length = 1 ∧ project items[items.length / 2] ≠ value then -1
      else if project items[items.length / 2] = value then ((items.length / 2 : Nat) : Int)
      else if project items[items.length / 2] < value then
        (if brSearch (items.drop (items.length / 2 + 1)) value project = -1 then -1
         else (items.length / 2 : Nat) + 1 + brSearch (items.drop (items.length / 2 + 1)) value project)
      else brSearch (items.take (items.length / 2)) value project := by
  rw [brSearch, dif_neg (by omega)]
  simp only [getItemUnwrap_of_lt bound, ne_eq, Option.some.injEq, jsGt_some, decide_eq_true_eq,
    @eq_comm _ value]

/-- On any input `brSearch` returns `-1` or an index that holds `value`. -/
theorem brSearch_result (items : List α) (value : β) (project : α → β) :
    brSearch items value project = -1 ∨
      ∃ (i : Nat) (bound : i < items.length),
        brSearch items value project = i ∧ project items[i] = value := by
  rcases Nat.eq_zero_or_pos items.length with empty | nonempty
  · exact .inl (by rw [List.length_eq_zero.mp empty, brSearch_nil])
  have bound : items.length / 2 < items.length := by omega
  rw [brSearch_step bound]
  split_ifs with single hit above missing
  · exact .inl rfl
  · exact .inr ⟨_, bound, rfl, hit⟩
  · exact .inl rfl
  · rcases brSearch_result (items.drop (items.length / 2 + 1)) value project with
      gone | ⟨i, inside, found, hit'⟩
    · exact absurd gone missing
    · simp only [List.length_drop, List.getElem_drop] at inside hit'
      exact .inr ⟨items.length / 2 + 1 + i, by omega, by rw [found]; omega, hit'⟩
  · rcases brSearch_result (items.take (items.length / 2)) value project with
      gone | ⟨i, inside, found, hit'⟩
    · exact .inl gone
    · simp only [List.length_take, List.getElem_take] at inside hit'
      exact .inr ⟨i, by omega, found, hit'⟩
termination_by items.length
decreasing_by all_goals simp only [List.length_drop, List.length_take]; omega

/-- On sorted input an item holding `value` keeps `brSearch` from giving up:
every halving step keeps that item on the side it searches. -/
theorem brSearch_ne_neg_one {items : List α} (sorted : Sorted project items) {k : Nat}
    (inside : k < items.length) (hit : project items[k] = value) :
    brSearch items value project ≠ -1 := by
  have bound : items.length / 2 < items.length := by omega
  rw [brSearch_step bound]
  split_ifs with single hitMiddle above missing
  · obtain ⟨one, miss⟩ := single
    have middle : k = items.length / 2 := by omega
    subst middle
    exact absurd hit miss
  · omega
  · have after : items.length / 2 < k := by
      by_contra early
      exact absurd (sorted.le (not_lt.mp early) bound) (not_le.mpr (hit ▸ above))
    refine absurd missing (brSearch_ne_neg_one (sorted.drop _) (k := k - (items.length / 2 + 1))
      (by simp only [List.length_drop]; omega) ?_)
    simpa only [List.getElem_drop, Nat.add_sub_cancel' after] using hit
  · rcases brSearch_result (items.drop (items.length / 2 + 1)) value project with gone | ⟨i, _, found, _⟩
    · exact absurd gone missing
    · rw [found]; omega
  · have before : k < items.length / 2 := by
      by_contra late
      have := sorted.le (not_lt.mp late) inside
      exact above (lt_of_le_of_ne (hit ▸ this) hitMiddle)
    exact brSearch_ne_neg_one (sorted.take _) (k := k) (by simp only [List.length_take]; omega)
      (by simpa only [List.getElem_take] using hit)
termination_by items.length
decreasing_by all_goals simp only [List.length_drop, List.length_take]; omega

/-- `brSearch` on sorted input: an index holding `value` when some item
projects to `value`, and `-1` when none does. -/
theorem brSearch_correct {items : List α} (sorted : Sorted project items) (value : β) :
    ((∃ x ∈ items, project x = value) →
      ∃ (i : Nat) (bound : i < items.length),
        brSearch items value project = i ∧ project items[i] = value) ∧
    ((∀ x ∈ items, project x ≠ value) → brSearch items value project = -1) := by
  refine ⟨fun ⟨x, member, hit⟩ => ?_, fun absent => ?_⟩
  · obtain ⟨k, inside, rfl⟩ := List.mem_iff_getElem.mp member
    exact (brSearch_result items value project).resolve_left (brSearch_ne_neg_one sorted inside hit)
  · rcases brSearch_result items value project with gone | ⟨i, inside, _, hit⟩
    · exact gone
    · exact absurd hit (absent _ (List.getElem_mem inside))

theorem brSearch_correct_on_sample :
    Sorted (id : Nat → Nat) [1, 3, 3, 8] ∧
      (((∃ x ∈ [1, 3, 3, 8], id x = 3) →
        ∃ (i : Nat) (bound : i < [1, 3, 3, 8].length),
          brSearch [1, 3, 3, 8] 3 id = i ∧ id [1, 3, 3, 8][i] = 3) ∧
      ((∀ x ∈ [1, 3, 3, 8], id x ≠ 3) → brSearch [1, 3, 3, 8] 3 id = -1)) :=
  ⟨by decide, brSearch_correct (by decide) 3⟩

end BrSearch

/-! ## `brSearchFirst` -/

section BrSearchFirst

variable {items : List α} {value : β} {project : α → β}

/-- One step of `brSearchFirst` on a window whose middle `middle` lies in the
array. -/
theorem brSearchFirstIn_step {start endIndex : Int} {middle : Nat} (ordered : start ≤ endIndex)
    (isMiddle : (middle : Int) = start + (endIndex - start) / 2) (bound : middle < items.length) :
    brSearchFirstIn items value project start endIndex =
      if (middle = 0 ∨ project items[middle - 1] < value) ∧ project items[middle] = value then
        (middle : Int)
      else if project items[middle] < value then
        brSearchFirstIn items value project ((middle : Int) + 1) endIndex
      else brSearchFirstIn items value project start ((middle : Int) - 1) := by
  rw [brSearchFirstIn, if_neg (not_lt.mpr ordered)]
  simp only [← isMiddle, getItemUnwrap_of_lt bound, getItemUnwrap_pred bound, Option.some.injEq,
    jsGt_some, decide_eq_true_eq]
  by_cases first : middle = 0 <;> simp [first]

/-- With no item projecting to `value`, no window ever accepts its middle. -/
theorem brSearchFirstIn_absent (absent : ∀ x ∈ items, project x ≠ value) (start endIndex : Int) :
    brSearchFirstIn items value project start endIndex = -1 := by
  rw [brSearchFirstIn]
  dsimp only
  split_ifs with empty accept
  · rfl
  · obtain ⟨x, member, hit⟩ := mem_of_getItemUnwrap accept.2
    exact absurd hit (absent x member)
  · exact brSearchFirstIn_absent absent _ _
  · exact brSearchFirstIn_absent absent _ _
termination_by (endIndex + 1 - start).toNat
decreasing_by all_goals omega

/-- A window of a sorted array that holds the first copy of `value` finds
exactly that copy: each step keeps it inside the window. -/
theorem brSearchFirstIn_eq_first (sorted : Sorted project items) {first : Nat}
    (firstBound : first < items.length) (hitFirst : project items[first] = value)
    (beforeFirst : ∀ (j : Nat) (before : j < first), project items[j] ≠ value)
    {start endIndex : Int} (nonneg : 0 ≤ start) (fromStart : start ≤ first)
    (toEnd : first ≤ endIndex) (within : endIndex < items.length) :
    brSearchFirstIn items value project start endIndex = first := by
  have below := fun {j : Nat} => sorted.lt_of_before_first firstBound hitFirst beforeFirst (j := j)
  obtain ⟨middle, isMiddle⟩ : ∃ middle : Nat, (middle : Int) = start + (endIndex - start) / 2 :=
    ⟨(start + (endIndex - start) / 2).toNat, by omega⟩
  have bound : middle < items.length := by omega
  rw [brSearchFirstIn_step (by omega) isMiddle bound]
  split_ifs with accept above
  · obtain ⟨previous, hit⟩ := accept
    have notBefore : ¬middle < first := fun before => beforeFirst middle before hit
    have notAfter : ¬first < middle := fun after => by
      have := sorted.le (i := first) (j := middle - 1) (by omega) (by omega)
      rcases previous with zero | smaller
      · omega
      · exact absurd (hitFirst ▸ this) (not_le.mpr smaller)
    omega
  · have before : middle < first := by
      by_contra late
      exact absurd (hitFirst ▸ sorted.le (not_lt.mp late) bound) (not_le.mpr above)
    exact brSearchFirstIn_eq_first sorted firstBound hitFirst beforeFirst (by omega) (by omega)
      toEnd within
  · have after : first < middle := by
      rcases lt_trichotomy middle first with before | same | after
      · exact absurd (below before) above
      · subst same
        exact absurd ⟨(Nat.eq_zero_or_pos middle).imp_right fun _ => below (by omega), hitFirst⟩ accept
      · exact after
    exact brSearchFirstIn_eq_first sorted firstBound hitFirst beforeFirst nonneg fromStart
      (by omega) (by omega)
termination_by (endIndex + 1 - start).toNat
decreasing_by all_goals omega

/-- On sorted input the only middle `brSearchFirst` accepts is the first copy
of `value`, so a window that does not hold that copy answers `-1`. -/
theorem brSearchFirstIn_outside (sorted : Sorted project items) {first : Nat}
    (firstBound : first < items.length) (hitFirst : project items[first] = value)
    (beforeFirst : ∀ (j : Nat) (before : j < first), project items[j] ≠ value)
    {start endIndex : Int} (outside : ∀ m : Nat, start ≤ m → m ≤ endIndex → m ≠ first) :
    brSearchFirstIn items value project start endIndex = -1 := by
  rw [brSearchFirstIn]
  dsimp only
  split_ifs with empty accept
  · rfl
  · obtain ⟨previous, middleHit⟩ := accept
    obtain ⟨middle, isMiddle, bound, hit⟩ := getItemUnwrap_eq_some middleHit
    rw [← isMiddle, getItemUnwrap_pred bound] at previous
    have notBefore : ¬middle < first := fun before => beforeFirst middle before hit
    have notAfter : ¬first < middle := fun after => by
      have := sorted.le (i := first) (j := middle - 1) (by omega) (by omega)
      simp only [if_neg (show middle ≠ 0 by omega), reduceCtorEq, jsGt_some, decide_eq_true_eq,
        false_or] at previous
      exact absurd (hitFirst ▸ this) (not_le.mpr previous)
    exact absurd (by omega) (outside middle (by omega) (by omega))
  · exact brSearchFirstIn_outside sorted firstBound hitFirst beforeFirst
      fun m lower upper => outside m (by omega) upper
  · exact brSearchFirstIn_outside sorted firstBound hitFirst beforeFirst
      fun m lower upper => outside m lower (by omega)
termination_by (endIndex + 1 - start).toNat
decreasing_by all_goals omega

/-- `brSearchFirst` with `start` and `end` omitted, on sorted input: the
least index holding `value`, or `-1` when no item projects to `value`. -/
theorem brSearchFirst_least (sorted : Sorted project items) (value : β) :
    ((∃ x ∈ items, project x = value) →
      ∃ (i : Nat) (bound : i < items.length),
        brSearchFirst items value project none none = i ∧ project items[i] = value ∧
          ∀ (j : Nat) (before : j < i), project items[j] ≠ value) ∧
    ((∀ x ∈ items, project x ≠ value) → brSearchFirst items value project none none = -1) := by
  refine ⟨fun ⟨x, member, hit⟩ => ?_, fun absent => brSearchFirstIn_absent absent _ _⟩
  have present : ∃ k, ∃ bound : k < items.length, project items[k] = value := by
    obtain ⟨k, inside, rfl⟩ := List.mem_iff_getElem.mp member
    exact ⟨k, inside, hit⟩
  obtain ⟨firstBound, hitFirst⟩ := Nat.find_spec present
  have beforeFirst : ∀ (j : Nat) (before : j < Nat.find present), project items[j] ≠ value :=
    fun j before hitJ => Nat.find_min present before ⟨_, hitJ⟩
  exact ⟨_, firstBound, brSearchFirstIn_eq_first sorted firstBound hitFirst beforeFirst
    le_rfl (by simp only [Option.getD_none]; omega) (by simp only [Option.getD_none]; omega)
    (by simp only [Option.getD_none]; omega), hitFirst,
    beforeFirst⟩

theorem brSearchFirst_least_on_sample :
    Sorted (id : Nat → Nat) [1, 3, 3, 8] ∧
      (((∃ x ∈ [1, 3, 3, 8], id x = 3) →
        ∃ (i : Nat) (bound : i < [1, 3, 3, 8].length),
          brSearchFirst [1, 3, 3, 8] 3 id none none = i ∧ id [1, 3, 3, 8][i] = 3 ∧
            ∀ (j : Nat) (before : j < i), id [1, 3, 3, 8][j] ≠ 3) ∧
      ((∀ x ∈ [1, 3, 3, 8], id x ≠ 3) → brSearchFirst [1, 3, 3, 8] 3 id none none = -1)) :=
  ⟨by decide, brSearchFirst_least (by decide) 3⟩

/-- `brSearchFirst` on a window `[start, end]` of a sorted array: the first
copy of `value` in the whole array when the window holds it, and `-1`
otherwise, also when the window holds later copies. -/
theorem brSearchFirst_window (sorted : Sorted project items) (value : β) {start endIndex : Nat}
    (within : endIndex < items.length) :
    (∀ (first : Nat) (bound : first < items.length), project items[first] = value →
        (∀ (j : Nat) (before : j < first), project items[j] ≠ value) →
        brSearchFirst items value project (some start) (some endIndex) =
          if start ≤ first ∧ first ≤ endIndex then (first : Int) else -1) ∧
      ((∀ x ∈ items, project x ≠ value) →
        brSearchFirst items value project (some start) (some endIndex) = -1) := by
  refine ⟨fun first bound hitFirst beforeFirst => ?_, fun absent => brSearchFirstIn_absent absent _ _⟩
  split_ifs with inside
  · exact brSearchFirstIn_eq_first sorted bound hitFirst beforeFirst (by simp only [Option.getD_some]; omega)
      (by simp only [Option.getD_some]; omega) (by simp only [Option.getD_some]; omega)
      (by simp only [Option.getD_some]; omega)
  · exact brSearchFirstIn_outside sorted bound hitFirst beforeFirst fun m lower upper same => by
      simp only [Option.getD_some] at lower upper
      omega

theorem brSearchFirst_window_on_sample :
    Sorted (id : Nat → Nat) [1, 3, 3, 8] ∧ 3 < [1, 3, 3, 8].length ∧
      ((∀ (first : Nat) (bound : first < [1, 3, 3, 8].length), id [1, 3, 3, 8][first] = 3 →
          (∀ (j : Nat) (before : j < first), id [1, 3, 3, 8][j] ≠ 3) →
          brSearchFirst [1, 3, 3, 8] 3 id (some 2) (some 3) =
            if 2 ≤ first ∧ first ≤ 3 then (first : Int) else -1) ∧
        ((∀ x ∈ [1, 3, 3, 8], id x ≠ 3) →
          brSearchFirst [1, 3, 3, 8] 3 id (some 2) (some 3) = -1)) :=
  ⟨by decide, by decide, brSearchFirst_window (by decide) 3 (by decide)⟩

end BrSearchFirst

/-! ## `brSearchLast` -/

section BrSearchLast

variable {items : List α} {value : β} {project : α → β}

/-- One step of `brSearchLast` on a window whose middle `middle` lies in the
array. -/
theorem brSearchLastIn_step {start endIndex : Int} {middle : Nat} (ordered : start ≤ endIndex)
    (isMiddle : (middle : Int) = start + (endIndex - start) / 2) (bound : middle < items.length) :
    brSearchLastIn items value project start endIndex =
      if (∀ next : middle + 1 < items.length, value < project items[middle + 1]) ∧
          project items[middle] = value then (middle : Int)
      else if value < project items[middle] then
        brSearchLastIn items value project start ((middle : Int) - 1)
      else brSearchLastIn items value project ((middle : Int) + 1) endIndex := by
  rw [brSearchLastIn, if_neg (not_lt.mpr ordered)]
  simp only [← isMiddle, getItemUnwrap_of_lt bound, getItemUnwrap_succ, Option.some.injEq,
    jsLt_some, decide_eq_true_eq]
  by_cases next : middle + 1 < items.length <;> simp [next]

/-- With no item projecting to `value`, no window ever accepts its middle. -/
theorem brSearchLastIn_absent (absent : ∀ x ∈ items, project x ≠ value) (start endIndex : Int) :
    brSearchLastIn items value project start endIndex = -1 := by
  rw [brSearchLastIn]
  dsimp only
  split_ifs with empty accept
  · rfl
  · obtain ⟨x, member, hit⟩ := mem_of_getItemUnwrap accept.2
    exact absurd hit (absent x member)
  · exact brSearchLastIn_absent absent _ _
  · exact brSearchLastIn_absent absent _ _
termination_by (endIndex + 1 - start).toNat
decreasing_by all_goals omega

/-- A window of a sorted array that holds the last copy of `value` finds
exactly that copy: each step keeps it inside the window. -/
theorem brSearchLastIn_eq_last (sorted : Sorted project items) {last : Nat}
    (lastBound : last < items.length) (hitLast : project items[last] = value)
    (afterLast : ∀ (j : Nat) (inside : j < items.length), last < j → project items[j] ≠ value)
    {start endIndex : Int} (nonneg : 0 ≤ start) (fromStart : start ≤ last)
    (toEnd : last ≤ endIndex) (within : endIndex < items.length) :
    brSearchLastIn items value project start endIndex = last := by
  have above := fun {j : Nat} => sorted.gt_of_after_last lastBound hitLast afterLast (j := j)
  obtain ⟨middle, isMiddle⟩ : ∃ middle : Nat, (middle : Int) = start + (endIndex - start) / 2 :=
    ⟨(start + (endIndex - start) / 2).toNat, by omega⟩
  have bound : middle < items.length := by omega
  rw [brSearchLastIn_step (by omega) isMiddle bound]
  split_ifs with accept below
  · obtain ⟨next, hit⟩ := accept
    have notAfter : ¬last < middle := fun after => afterLast middle bound after hit
    have notBefore : ¬middle < last := fun before => by
      have := sorted.le (i := middle + 1) (j := last) (by omega) lastBound
      exact absurd (hitLast ▸ this) (not_le.mpr (next (by omega)))
    omega
  · have after : last < middle := by
      by_contra early
      exact absurd (hitLast ▸ sorted.le (not_lt.mp early) lastBound) (not_le.mpr below)
    exact brSearchLastIn_eq_last sorted lastBound hitLast afterLast nonneg fromStart (by omega)
      (by omega)
  · have before : middle < last := by
      rcases lt_trichotomy middle last with before | same | after
      · exact before
      · subst same
        exact absurd ⟨fun next => above next (by omega), hitLast⟩ accept
      · exact absurd (above bound after) below
    exact brSearchLastIn_eq_last sorted lastBound hitLast afterLast (by omega) (by omega) toEnd
      within
termination_by (endIndex + 1 - start).toNat
decreasing_by all_goals omega

/-- On sorted input the only middle `brSearchLast` accepts is the last copy of
`value`, so a window that does not hold that copy answers `-1`. -/
theorem brSearchLastIn_outside (sorted : Sorted project items) {last : Nat}
    (lastBound : last < items.length) (hitLast : project items[last] = value)
    (afterLast : ∀ (j : Nat) (inside : j < items.length), last < j → project items[j] ≠ value)
    {start endIndex : Int} (outside : ∀ m : Nat, start ≤ m → m ≤ endIndex → m ≠ last) :
    brSearchLastIn items value project start endIndex = -1 := by
  rw [brSearchLastIn]
  dsimp only
  split_ifs with empty accept
  · rfl
  · obtain ⟨next, middleHit⟩ := accept
    obtain ⟨middle, isMiddle, bound, hit⟩ := getItemUnwrap_eq_some middleHit
    rw [← isMiddle, getItemUnwrap_succ] at next
    have notAfter : ¬last < middle := fun after => afterLast middle bound after hit
    have notBefore : ¬middle < last := fun before => by
      have := sorted.le (i := middle + 1) (j := last) (by omega) lastBound
      simp only [dif_pos (show middle + 1 < items.length by omega), reduceCtorEq, jsLt_some,
        decide_eq_true_eq, false_or] at next
      exact absurd (hitLast ▸ this) (not_le.mpr next)
    exact absurd (by omega) (outside middle (by omega) (by omega))
  · exact brSearchLastIn_outside sorted lastBound hitLast afterLast
      fun m lower upper => outside m lower (by omega)
  · exact brSearchLastIn_outside sorted lastBound hitLast afterLast
      fun m lower upper => outside m (by omega) upper
termination_by (endIndex + 1 - start).toNat
decreasing_by all_goals omega

/-- `brSearchLast` with `start` and `end` omitted, on sorted input: the
greatest index holding `value`, or `-1` when no item projects to `value`. -/
theorem brSearchLast_greatest (sorted : Sorted project items) (value : β) :
    ((∃ x ∈ items, project x = value) →
      ∃ (i : Nat) (bound : i < items.length),
        brSearchLast items value project none none = i ∧ project items[i] = value ∧
          ∀ (j : Nat) (inside : j < items.length), i < j → project items[j] ≠ value) ∧
    ((∀ x ∈ items, project x ≠ value) → brSearchLast items value project none none = -1) := by
  refine ⟨fun ⟨x, member, hit⟩ => ?_, fun absent => brSearchLastIn_absent absent _ _⟩
  let Holds := fun k => ∃ bound : k < items.length, project items[k] = value
  obtain ⟨k, inside, rfl⟩ := List.mem_iff_getElem.mp member
  obtain ⟨lastBound, hitLast⟩ : Holds (Nat.findGreatest Holds items.length) :=
    Nat.findGreatest_spec inside.le ⟨inside, hit⟩
  have afterLast : ∀ (j : Nat) (inside : j < items.length),
      Nat.findGreatest Holds items.length < j → project items[j] ≠ value :=
    fun j inside after hitJ => Nat.findGreatest_is_greatest after inside.le ⟨inside, hitJ⟩
  exact ⟨_, lastBound, brSearchLastIn_eq_last sorted lastBound hitLast afterLast
    le_rfl (by simp only [Option.getD_none]; omega) (by simp only [Option.getD_none]; omega)
    (by simp only [Option.getD_none]; omega), hitLast,
    afterLast⟩

theorem brSearchLast_greatest_on_sample :
    Sorted (id : Nat → Nat) [1, 3, 3, 8] ∧
      (((∃ x ∈ [1, 3, 3, 8], id x = 3) →
        ∃ (i : Nat) (bound : i < [1, 3, 3, 8].length),
          brSearchLast [1, 3, 3, 8] 3 id none none = i ∧ id [1, 3, 3, 8][i] = 3 ∧
            ∀ (j : Nat) (inside : j < [1, 3, 3, 8].length), i < j → id [1, 3, 3, 8][j] ≠ 3) ∧
      ((∀ x ∈ [1, 3, 3, 8], id x ≠ 3) → brSearchLast [1, 3, 3, 8] 3 id none none = -1)) :=
  ⟨by decide, brSearchLast_greatest (by decide) 3⟩

/-- `brSearchLast` on a window `[start, end]` of a sorted array: the last copy
of `value` in the whole array when the window holds it, and `-1` otherwise,
also when the window holds earlier copies. -/
theorem brSearchLast_window (sorted : Sorted project items) (value : β) {start endIndex : Nat}
    (within : endIndex < items.length) :
    (∀ (last : Nat) (bound : last < items.length), project items[last] = value →
        (∀ (j : Nat) (inside : j < items.length), last < j → project items[j] ≠ value) →
        brSearchLast items value project (some start) (some endIndex) =
          if start ≤ last ∧ last ≤ endIndex then (last : Int) else -1) ∧
      ((∀ x ∈ items, project x ≠ value) →
        brSearchLast items value project (some start) (some endIndex) = -1) := by
  refine ⟨fun last bound hitLast afterLast => ?_, fun absent => brSearchLastIn_absent absent _ _⟩
  split_ifs with inside
  · exact brSearchLastIn_eq_last sorted bound hitLast afterLast (by simp only [Option.getD_some]; omega)
      (by simp only [Option.getD_some]; omega) (by simp only [Option.getD_some]; omega)
      (by simp only [Option.getD_some]; omega)
  · exact brSearchLastIn_outside sorted bound hitLast afterLast fun m lower upper same => by
      simp only [Option.getD_some] at lower upper
      omega

theorem brSearchLast_window_on_sample :
    Sorted (id : Nat → Nat) [1, 3, 3, 8] ∧ 1 < [1, 3, 3, 8].length ∧
      ((∀ (last : Nat) (bound : last < [1, 3, 3, 8].length), id [1, 3, 3, 8][last] = 3 →
          (∀ (j : Nat) (inside : j < [1, 3, 3, 8].length), last < j → id [1, 3, 3, 8][j] ≠ 3) →
          brSearchLast [1, 3, 3, 8] 3 id (some 0) (some 1) =
            if 0 ≤ last ∧ last ≤ 1 then (last : Int) else -1) ∧
        ((∀ x ∈ [1, 3, 3, 8], id x ≠ 3) →
          brSearchLast [1, 3, 3, 8] 3 id (some 0) (some 1) = -1)) :=
  ⟨by decide, by decide, brSearchLast_window (by decide) 3 (by decide)⟩

end BrSearchLast

/-! ## Windows inside a run of copies -/

/-- In `[2, 2]` the window `[1, 1]` holds a `2`, but `brSearchFirst` accepts
index `1` only when the item before it, outside the window, is below `2`;
`brSearchLast` on `[0, 0]` fails the same way on the item after it. -/
theorem brSearch_window_inside_run :
    brSearchFirst [2, 2] 2 id (some 1) (some 1) = -1 ∧
      brSearchLast [2, 2] 2 id (some 0) (some 0) = -1 :=
  ⟨brSearchFirstIn_outside (by decide) (show 0 < [2, 2].length by decide) (by decide) (by decide)
      fun m lower _ => by simp only [Option.getD_some] at lower; omega,
    brSearchLastIn_outside (by decide) (show 1 < [2, 2].length by decide) (by decide) (by decide)
      fun m _ upper => by simp only [Option.getD_some] at upper; omega⟩

end OvsFrontend.Search

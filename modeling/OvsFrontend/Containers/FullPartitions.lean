import OvsFrontend.Containers.Disk
import OvsFrontend.Generic.FormatBytes

/-! `Disk.fullPartitions` lays the partitions out over the disk, filling the
gaps with `RAW` entries, gives every entry its size in percent, and then
lets every entry below `minSize` take `minSize` from the first entry after
it, scanning circularly, that holds at least `2 · minSize`. The scan is a
`while` loop that stops on reaching its own index again; it wraps from the
end to `0` only after the exit test, and then steps past `0`. An entry at
index `0` therefore never meets its own index: when no other entry can
donate, the loop runs forever (`scanForDonor_first_diverges`). Every other
scan stops. `fuel` bounds each scan's turns, and a run that needs more
answers `none`.

The relative size is `Math.round(size / diskSize * 100)`, with the quotient
and the product rounded to doubles. Away from a tie, a percentage that is an
integer plus a half, that is the integer nearest `100 · size / diskSize`
(`relativeSizeOf_of_not_tie`). -/
namespace OvsFrontend.Containers

open OvsFrontend.Binary64 OvsFrontend.FormatBytes

/-- `minSize`: the least size, in percent, an entry is drawn with. -/
def minSize : Nat := 3

/-- `new Partition()` marked `RAW`: space no partition covers. -/
def rawPartition (offset size : Nat) : Partition :=
  { Partition.create none with state := some "RAW", offset := offset, size := size }

@[simp] theorem rawPartition_offset (offset size : Nat) : (rawPartition offset size).offset = offset :=
  rfl

@[simp] theorem rawPartition_size (offset size : Nat) : (rawPartition offset size).size = size := rfl

/-- The `$.each` over `self.partitions()` with `previousPartition`: every
partition, after a `RAW` entry for the space between the end of the
previous partition (`0` for the first one) and its offset. -/
def fillGaps : Option Partition → List Partition → List Partition
  | _, [] => []
  | none, partition :: rest =>
    (if partition.offset ≠ 0 then [rawPartition 0 partition.offset] else []) ++
      partition :: fillGaps (some partition) rest
  | some previousPartition, partition :: rest =>
    (if previousPartition.offset + previousPartition.size < partition.offset then
      [rawPartition (previousPartition.offset + previousPartition.size)
        (partition.offset - previousPartition.offset - previousPartition.size)]
    else []) ++ partition :: fillGaps (some partition) rest

/-- The entries `fullPartitions` lays out: the partitions with their gaps and
a trailing `RAW` entry up to the disk size, or one `RAW` entry for the whole
disk when there is no partition. -/
def layoutEntries (partitions : List Partition) (diskSize : Nat) : List Partition :=
  match partitions.getLast? with
  | none => [rawPartition 0 diskSize]
  | some partition =>
    fillGaps none partitions ++
      if partition.offset + partition.size < diskSize then
        [rawPartition (partition.offset + partition.size) (diskSize - partition.offset - partition.size)]
      else []

/-- `Math.round(size / diskSize * 100)`, the quotient and the product rounded
to doubles. For a disk of positive size only: at size `0` the code divides by
zero and gets `Infinity` or `NaN`, neither below `minSize`, which this model
does not represent. -/
def relativeSizeOf (size diskSize : Nat) : Nat :=
  (mathRound (roundDouble (roundDouble ((size : ℚ) / diskSize) * 100))).toNat

/-- The `$.each` that sets `relativeSize` and clears `small` on every entry. -/
def sizeEntries (data : List Partition) (diskSize : Nat) : List Partition :=
  data.map fun partition =>
    { partition with relativeSize := relativeSizeOf partition.size diskSize, small := false }

/-- A quotient of magnitude at most `1`, rounded to a double, times `100`,
rounded again, is within `2 ^ -45` of the exact percentage. -/
theorem abs_percent_sub_le {q : ℚ} (unit : |q| ≤ 1) :
    |roundDouble (roundDouble q * 100) - 100 * q| ≤ 1 / 2 ^ 45 := by
  have first := abs_roundDouble_sub_le (e := 0) (by simpa using unit) (by norm_num)
  rw [abs_le] at first unit
  norm_num at first
  have second := abs_roundDouble_sub_le (x := roundDouble q * 100) (e := 7)
    (by rw [abs_le]; norm_num; constructor <;> linarith) (by norm_num)
  rw [abs_le] at second ⊢
  norm_num at second ⊢
  constructor <;> linarith

/-- Away from a tie the doubles change nothing: unless `100 · size / diskSize`
is an integer plus a half, `relativeSizeOf` is the integer nearest to it. The
two roundings move the percentage by less than `2 ^ -45`, and a percentage
that is no tie is at least `1 / (2 · diskSize)` away from one. -/
theorem relativeSizeOf_of_not_tie {size diskSize : Nat} (fits : size ≤ diskSize)
    (small : diskSize < 2 ^ 40) (noTie : (200 * size + diskSize) % (2 * diskSize) ≠ 0) :
    relativeSizeOf size diskSize = (200 * size + diskSize) / (2 * diskSize) := by
  have positive : 0 < diskSize := Nat.pos_of_ne_zero fun zero => by subst zero; simp_all
  have division := Nat.div_add_mod (200 * size + diskSize) (2 * diskSize)
  have remainder := Nat.mod_lt (200 * size + diskSize) (show 0 < 2 * diskSize by omega)
  set N := (200 * size + diskSize) / (2 * diskSize)
  have lowN : (2 * diskSize * N + 1 : ℚ) ≤ 200 * size + diskSize := by
    exact_mod_cast (show 2 * diskSize * N + 1 ≤ 200 * size + diskSize by omega)
  have highN : (200 * size + diskSize + 1 : ℚ) ≤ 2 * diskSize * (N + 1) := by
    exact_mod_cast (show 200 * size + diskSize + 1 ≤ 2 * diskSize * (N + 1) by rw [Nat.mul_succ]; omega)
  have positiveQ : (0 : ℚ) < diskSize := by exact_mod_cast positive
  have smallQ : (diskSize : ℚ) < 2 ^ 40 := by exact_mod_cast small
  have unit : |(size : ℚ) / diskSize| ≤ 1 := by
    rw [abs_of_nonneg (by positivity), div_le_one positiveQ]
    exact_mod_cast fits
  -- Scaled back by `diskSize`, the rounded percentage is within `2 ^ -5` of `100 · size`.
  set rounded := roundDouble (roundDouble ((size : ℚ) / diskSize) * 100)
  have near : |rounded * diskSize - 100 * size| ≤ diskSize / 2 ^ 45 :=
    calc |rounded * diskSize - 100 * size| = |rounded - 100 * (size / diskSize)| * diskSize := by
          rw [← abs_of_pos positiveQ, ← abs_mul, sub_mul, mul_assoc, abs_of_pos positiveQ,
            div_mul_cancel₀ _ positiveQ.ne']
      _ ≤ 1 / 2 ^ 45 * diskSize := mul_le_mul_of_nonneg_right (abs_percent_sub_le unit) positiveQ.le
      _ = diskSize / 2 ^ 45 := by ring
  rw [abs_le] at near
  have floor : ⌊rounded + 1 / 2⌋ = N := by
    rw [Int.floor_eq_iff]
    push_cast
    constructor
    · by_contra! over
      have := mul_lt_mul_of_pos_right over positiveQ
      linarith
    · by_contra! under
      have := mul_le_mul_of_nonneg_right under positiveQ.le
      linarith
  rw [relativeSizeOf, mathRound, floor, Int.toNat_natCast]

/-- Where no entry's percentage is a tie, the relative sizes are the exact
nearest integers. -/
theorem sizeEntries_of_not_tie {data : List Partition} {diskSize : Nat} (small : diskSize < 2 ^ 40)
    (noTie : ∀ partition ∈ data, partition.size ≤ diskSize ∧
      (200 * partition.size + diskSize) % (2 * diskSize) ≠ 0) :
    sizeEntries data diskSize = data.map fun partition =>
      { partition with relativeSize := (200 * partition.size + diskSize) / (2 * diskSize), small := false } :=
  List.map_congr_left fun partition member => by
    rw [relativeSizeOf_of_not_tie (noTie partition member).1 small (noTie partition member).2]

/-- The relative size of the entry at `index`. -/
def relativeAt (data : List Partition) (index : Nat) : Nat :=
  (data.getD index default).relativeSize

/-- One turn of the `while` body at the wrapped `runningIndex`: a donor with at
least `2 · minSize` hands `minSize` to the small entry at `index`. -/
def donate (index : Nat) (data : List Partition) (runningIndex : Nat) : List Partition :=
  if runningIndex ≠ index ∧ minSize * 2 ≤ relativeAt data runningIndex then
    (data.modify (fun partition => { partition with relativeSize := minSize, small := true })
      index).modify
      (fun partition => { partition with relativeSize := partition.relativeSize - minSize })
      runningIndex
  else data

/-- The `while` loop for the small entry at `index`, from `runningIndex`, with
at most `fuel` turns; `none` when the fuel runs out first. -/
def scanForDonor (index : Nat) : Nat → Nat → List Partition → Option (List Partition)
  | 0, _, _ => none
  | fuel + 1, runningIndex, data =>
    if runningIndex ≠ index ∧ relativeAt data index < minSize then
      let wrapped := if runningIndex = data.length then 0 else runningIndex
      scanForDonor index fuel (wrapped + 1) (donate index data wrapped)
    else some data

/-- One turn of the `$.each` over `data`: an entry below `minSize` starts a
scan at the entry after it. -/
def redistributeAt (fuel : Nat) (data : List Partition) (index : Nat) : Option (List Partition) :=
  if relativeAt data index < minSize then scanForDonor index fuel (index + 1) data else some data

/-- The `$.each` over `data` that gives every entry below `minSize` its share,
each scan with at most `fuel` turns. -/
def redistribute (fuel : Nat) (data : List Partition) : Option (List Partition) :=
  (List.range data.length).foldlM (redistributeAt fuel) data

/-- The entries `fullPartitions` lays out, with their relative sizes set. -/
def sizedLayout (partitions : List Partition) (diskSize : Nat) : List Partition :=
  sizeEntries (layoutEntries partitions diskSize) diskSize

/-- `Disk.fullPartitions` for `self.partitions()` and `self.size()`, every
`while` loop bounded by `fuel` turns; `none` when one runs out. -/
def fullPartitions (fuel : Nat) (partitions : List Partition) (diskSize : Nat) :
    Option (List Partition) :=
  let data := sizedLayout partitions diskSize
  if data.length > 1 then redistribute fuel data else some data

theorem scanForDonor_stop {index fuel runningIndex : Nat} {data : List Partition}
    (stopped : ¬(runningIndex ≠ index ∧ relativeAt data index < minSize)) :
    scanForDonor index (fuel + 1) runningIndex data = some data := by
  rw [scanForDonor, if_neg stopped]

theorem scanForDonor_turn {index fuel runningIndex : Nat} {data : List Partition}
    (scanning : runningIndex ≠ index ∧ relativeAt data index < minSize) :
    scanForDonor index (fuel + 1) runningIndex data =
      scanForDonor index fuel ((if runningIndex = data.length then 0 else runningIndex) + 1)
        (donate index data (if runningIndex = data.length then 0 else runningIndex)) := by
  rw [scanForDonor, if_pos scanning]

/-! ## A small first entry with no donor -/

/-- No entry after the first can donate. -/
def NoDonor (data : List Partition) : Prop :=
  ∀ j < data.length, 0 < j → relativeAt data j < minSize * 2

/-- The redistribution runs and its first entry, below `minSize`, has no
donor. -/
def Stalls (data : List Partition) : Prop :=
  1 < data.length ∧ relativeAt data 0 < minSize ∧ NoDonor data

instance (data : List Partition) : Decidable (Stalls data) :=
  inferInstanceAs (Decidable (_ ∧ _ ∧ ∀ j < data.length, _))

/-- With no donor, a turn of the scan for the entry at `0` changes nothing. -/
theorem donate_first_no_donor {data : List Partition} (noDonor : NoDonor data)
    {runningIndex : Nat} (inside : runningIndex < data.length) : donate 0 data runningIndex = data := by
  rcases Nat.eq_zero_or_pos runningIndex with zero | positive
  · simp [donate, zero]
  · simp [donate, not_le.mpr (noDonor runningIndex inside positive)]

/-- The scan for a small entry at index `0` with no donor never stops: from
any `runningIndex` in `[1, length]` one turn leads back into that range with
the entries unchanged, so every fuel runs out. -/
theorem scanForDonor_first_diverges {data : List Partition}
    (small : relativeAt data 0 < minSize) (noDonor : NoDonor data) :
    ∀ fuel runningIndex, 0 < runningIndex → runningIndex ≤ data.length →
      scanForDonor 0 fuel runningIndex data = none := by
  intro fuel
  induction fuel with
  | zero => intro runningIndex _ _; rfl
  | succ fuel ih =>
    intro runningIndex positive inside
    have wrappedInside : (if runningIndex = data.length then 0 else runningIndex) < data.length := by
      split_ifs <;> omega
    rw [scanForDonor_turn ⟨by omega, small⟩, donate_first_no_donor noDonor wrappedInside]
    exact ih _ (by omega) (by split_ifs <;> omega)

/-- When the sized layout stalls, `fullPartitions` never returns, whatever
the fuel. -/
theorem fullPartitions_diverges {partitions : List Partition} {diskSize : Nat}
    (stalls : Stalls (sizedLayout partitions diskSize)) (fuel : Nat) :
    fullPartitions fuel partitions diskSize = none := by
  obtain ⟨long, small, noDonor⟩ := stalls
  obtain ⟨n, length⟩ : ∃ n, (sizedLayout partitions diskSize).length = n + 1 :=
    ⟨_, (Nat.succ_pred_eq_of_pos (by omega)).symm⟩
  simp only [fullPartitions]
  rw [if_pos long, redistribute, length, List.range_succ_eq_map, List.foldlM_cons, redistributeAt,
    if_pos small, scanForDonor_first_diverges small noDonor fuel 1 (by omega) (by omega)]
  rfl

/-- A disk of size `100` holding a `1`-unit partition at offset `0` and
nineteen `5`-unit partitions after it, with a `4`-unit gap at the end: the
first entry is below `minSize` and none reaches `2 · minSize`, so
`fullPartitions` never returns. -/
theorem fullPartitions_stalls_on_small_first_partition (fuel : Nat) :
    fullPartitions fuel (⟨some "p0", none, 0, 1, false, 0, false⟩ ::
      (List.range 19).map fun i => ⟨some "p", none, 1 + 5 * i, 5, false, 0, false⟩) 100 = none := by
  refine fullPartitions_diverges ?_ fuel
  rw [sizedLayout, sizeEntries_of_not_tie (by decide) (by decide)]
  decide

/-! ## A turn keeps every entry in place -/

/-- What an entry is and where it lies: guid, state, offset and size. -/
def Partition.placement (partition : Partition) : Option String × Option String × Nat × Nat :=
  (partition.guid, partition.state, partition.offset, partition.size)

theorem map_modify_of_keeps {α β : Type} {f : α → α} {g : α → β} (keeps : ∀ a, g (f a) = g a) :
    ∀ (n : Nat) (l : List α), (l.modify f n).map g = l.map g
  | _, [] => by simp
  | 0, a :: l => by simp [keeps]
  | n + 1, a :: l => by simp [map_modify_of_keeps keeps n l]

@[simp] theorem placements_donate (index : Nat) (data : List Partition) (runningIndex : Nat) :
    (donate index data runningIndex).map Partition.placement = data.map Partition.placement := by
  unfold donate
  split_ifs
  · refine (map_modify_of_keeps ?_ _ _).trans (map_modify_of_keeps ?_ _ _) <;> exact fun _ => rfl
  · rfl

theorem placements_of_scanForDonor {index : Nat} :
    ∀ {fuel runningIndex data result}, scanForDonor index fuel runningIndex data = some result →
      result.map Partition.placement = data.map Partition.placement
  | 0, _, _, _, stopped => by cases stopped
  | fuel + 1, runningIndex, data, result, stopped => by
    by_cases scanning : runningIndex ≠ index ∧ relativeAt data index < minSize
    · rw [scanForDonor_turn scanning] at stopped
      exact (placements_of_scanForDonor stopped).trans (placements_donate ..)
    · rw [scanForDonor_stop scanning] at stopped
      cases stopped
      rfl

@[simp] theorem length_donate (index : Nat) (data : List Partition) (runningIndex : Nat) :
    (donate index data runningIndex).length = data.length := by
  simpa only [List.length_map] using congrArg List.length (placements_donate index data runningIndex)

theorem length_of_scanForDonor {index fuel runningIndex : Nat} {data result : List Partition}
    (stopped : scanForDonor index fuel runningIndex data = some result) : result.length = data.length := by
  simpa only [List.length_map] using congrArg List.length (placements_of_scanForDonor stopped)

/-! ## Every other scan stops -/

/-- After a donation the small entry holds `minSize`. -/
theorem relativeAt_donate_self {index runningIndex : Nat} {data : List Partition}
    (inside : index < data.length) (other : runningIndex ≠ index)
    (donor : minSize * 2 ≤ relativeAt data runningIndex) :
    relativeAt (donate index data runningIndex) index = minSize := by
  rw [donate, if_pos ⟨other, donor⟩]
  simp only [relativeAt, List.getD_eq_getElem?_getD, List.getElem?_modify_ne _ _ other,
    List.getElem?_modify_eq, List.getElem?_eq_getElem inside]
  rfl

/-- A scan that has wrapped past the end, now at `runningIndex ≤ index`,
stops within `index - runningIndex + 1` turns. -/
theorem scanForDonor_stops_before {index : Nat} :
    ∀ fuel runningIndex (data : List Partition), index < data.length → runningIndex ≤ index →
      index - runningIndex < fuel → (scanForDonor index fuel runningIndex data).isSome := by
  intro fuel
  induction fuel with
  | zero => intro _ _ _ _ fuelLeft; omega
  | succ fuel ih =>
    intro runningIndex data inside notPast fuelLeft
    by_cases scanning : runningIndex ≠ index ∧ relativeAt data index < minSize
    · rw [scanForDonor_turn scanning, if_neg (show runningIndex ≠ data.length by omega)]
      exact ih _ _ (by simpa using inside) (by omega) (by omega)
    · rw [scanForDonor_stop scanning]
      rfl

/-- The scan for a small entry at `index > 0`, from `runningIndex` after it,
stops: it wraps to `0`, steps to `1 ≤ index`, and climbs to `index`. -/
theorem scanForDonor_stops_after {index : Nat} (positive : 0 < index) :
    ∀ fuel runningIndex (data : List Partition), index < data.length → index < runningIndex →
      runningIndex ≤ data.length → data.length - runningIndex + index < fuel →
      (scanForDonor index fuel runningIndex data).isSome := by
  intro fuel
  induction fuel with
  | zero => intro _ _ _ _ _ fuelLeft; omega
  | succ fuel ih =>
    intro runningIndex data inside after notPast fuelLeft
    by_cases scanning : runningIndex ≠ index ∧ relativeAt data index < minSize
    · rw [scanForDonor_turn scanning]
      by_cases atEnd : runningIndex = data.length
      · rw [if_pos atEnd]
        exact scanForDonor_stops_before _ _ _ (by simpa using inside) (by omega) (by omega)
      · rw [if_neg atEnd]
        exact ih _ _ (by simpa using inside) (by omega) (by simp only [length_donate]; omega)
          (by simp only [length_donate]; omega)
    · rw [scanForDonor_stop scanning]
      rfl

/-- The scan for a small entry at `0` stops when some later entry `donor` can
donate: the entries do not change until the scan meets a donor, which
raises the first entry to `minSize`. -/
theorem scanForDonor_first_stops {donor : Nat} :
    ∀ fuel runningIndex (data : List Partition), donor < data.length →
      minSize * 2 ≤ relativeAt data donor → 0 < runningIndex → runningIndex ≤ donor →
      donor - runningIndex + 1 < fuel → (scanForDonor 0 fuel runningIndex data).isSome := by
  intro fuel
  induction fuel with
  | zero => intro _ _ _ _ _ _ fuelLeft; omega
  | succ fuel ih =>
    intro runningIndex data inside gives positive notPast fuelLeft
    by_cases scanning : runningIndex ≠ 0 ∧ relativeAt data 0 < minSize
    · rw [scanForDonor_turn scanning, if_neg (show runningIndex ≠ data.length by omega)]
      by_cases here : minSize * 2 ≤ relativeAt data runningIndex
      · obtain ⟨fuel, rfl⟩ : ∃ rest, fuel = rest + 1 := ⟨fuel - 1, by omega⟩
        rw [scanForDonor_stop fun ⟨_, small⟩ => by
          rw [relativeAt_donate_self (by omega) (by omega) here] at small
          exact lt_irrefl _ small]
        rfl
      · have unchanged : donate 0 data runningIndex = data := by simp [donate, here]
        have notDonor : runningIndex ≠ donor := fun same => here (same ▸ gives)
        rw [unchanged]
        exact ih _ _ inside gives (by omega) (by omega) (by omega)
    · rw [scanForDonor_stop scanning]
      rfl

/-- A turn of the `$.each` at an entry after the first finishes, with fuel
`data.length`, and keeps the number of entries. -/
theorem redistributeAt_rest {fuel index : Nat} {data : List Partition} (positive : 0 < index)
    (inside : index < data.length) (enough : data.length ≤ fuel) :
    ∃ result, redistributeAt fuel data index = some result ∧ result.length = data.length := by
  unfold redistributeAt
  split_ifs
  · obtain ⟨result, found⟩ := Option.isSome_iff_exists.mp
      (scanForDonor_stops_after positive fuel (index + 1) data inside (by omega) (by omega) (by omega))
    exact ⟨result, found, length_of_scanForDonor found⟩
  · exact ⟨data, rfl, rfl⟩

/-- The turn at the first entry finishes, with fuel `data.length + 1`,
unless it stalls. -/
theorem redistributeAt_first (fuel : Nat) {data : List Partition} (long : 1 < data.length)
    (notStalled : ¬Stalls data) (enough : data.length < fuel) :
    ∃ result, redistributeAt fuel data 0 = some result ∧ result.length = data.length := by
  unfold redistributeAt
  split_ifs with small
  · obtain ⟨donor, inside, positive, gives⟩ : ∃ donor < data.length, 0 < donor ∧
        minSize * 2 ≤ relativeAt data donor := by
      simpa [Stalls, NoDonor, long, small] using notStalled
    obtain ⟨result, found⟩ := Option.isSome_iff_exists.mp
      (scanForDonor_first_stops fuel 1 data inside gives (by omega) (by omega) (by omega))
    exact ⟨result, found, length_of_scanForDonor found⟩
  · exact ⟨data, rfl, rfl⟩

theorem foldlM_redistributeAt_rest (fuel : Nat) :
    ∀ (indices : List Nat) (data : List Partition), (∀ i ∈ indices, 0 < i ∧ i < data.length) →
      data.length ≤ fuel → (indices.foldlM (redistributeAt fuel) data).isSome := by
  intro indices
  induction indices with
  | nil => intro _ _ _; rfl
  | cons index rest ih =>
    intro data inside enough
    obtain ⟨positive, bound⟩ := inside index (by simp)
    obtain ⟨result, turn, sameLength⟩ := redistributeAt_rest positive bound enough
    rw [List.foldlM_cons, turn]
    exact ih result (fun i member => sameLength ▸ inside i (by simp [member])) (by omega)

theorem placements_of_foldlM_redistributeAt (fuel : Nat) :
    ∀ {indices : List Nat} {data result : List Partition},
      indices.foldlM (redistributeAt fuel) data = some result →
        result.map Partition.placement = data.map Partition.placement
  | [], _, _, done => by cases done; rfl
  | index :: rest, data, result, done => by
    rw [List.foldlM_cons] at done
    obtain ⟨turned, turn, done⟩ := Option.bind_eq_some.mp done
    refine (placements_of_foldlM_redistributeAt fuel done).trans ?_
    unfold redistributeAt at turn
    split_ifs at turn
    · exact placements_of_scanForDonor turn
    · cases turn; rfl

/-- `fullPartitions` draws the entries `layoutEntries` lays out, in that
order: setting the relative sizes and redistributing them change no entry's
guid, state, offset or size. -/
theorem fullPartitions_placements {fuel : Nat} {partitions result : List Partition} {diskSize : Nat}
    (returned : fullPartitions fuel partitions diskSize = some result) :
    result.map Partition.placement = (layoutEntries partitions diskSize).map Partition.placement := by
  have sized : (sizedLayout partitions diskSize).map Partition.placement =
      (layoutEntries partitions diskSize).map Partition.placement := by
    simp [sizedLayout, sizeEntries, Partition.placement]
  simp only [fullPartitions] at returned
  split_ifs at returned
  · exact (placements_of_foldlM_redistributeAt fuel returned).trans sized
  · cases returned; exact sized

end OvsFrontend.Containers

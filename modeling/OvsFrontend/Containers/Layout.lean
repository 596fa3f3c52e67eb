import Mathlib.Data.List.Chain
import OvsFrontend.Containers.FullPartitions

/-! What the gap filling of `Disk.fullPartitions` lays out. For partitions
sorted by offset, pairwise apart and ending inside the disk, the entries are
the partitions in their order with `RAW` entries of positive size between
them, and together they cover `[0, size)` edge to edge
(`layoutEntries_tiles`). The proof follows `fillGaps`: each partition is
preceded by the gap from the end of the one before it. -/
namespace OvsFrontend.Containers

/-- The entries cover `[start, stop)` edge to edge: each starts where the one
before it ends, and the last ends at `stop`. -/
def Tiles : Nat → Nat → List Partition → Prop
  | start, stop, [] => start = stop
  | start, stop, entry :: rest => entry.offset = start ∧ Tiles (entry.offset + entry.size) stop rest

instance decidableTiles : (start stop : Nat) → (entries : List Partition) →
    Decidable (Tiles start stop entries)
  | start, stop, [] => inferInstanceAs (Decidable (start = stop))
  | start, stop, entry :: rest =>
    haveI := decidableTiles (entry.offset + entry.size) stop rest
    inferInstanceAs (Decidable (entry.offset = start ∧ Tiles (entry.offset + entry.size) stop rest))

/-- `entries` are `partitions` in their order, with `RAW` entries of positive
size before, between and after them. -/
inductive Interleaves : List Partition → List Partition → Prop
  | nil : Interleaves [] []
  | keep {partition : Partition} {partitions entries : List Partition} :
    Interleaves partitions entries → Interleaves (partition :: partitions) (partition :: entries)
  | gap {offset size : Nat} {partitions entries : List Partition} (positive : 0 < size) :
    Interleaves partitions entries → Interleaves partitions (rawPartition offset size :: entries)

theorem Tiles.append {start middle stop : Nat} :
    ∀ {front back : List Partition}, Tiles start middle front → Tiles middle stop back →
      Tiles start stop (front ++ back)
  | [], _, first, second => by cases first; exact second
  | _ :: _, _, ⟨starts, rest⟩, second => ⟨starts, Tiles.append rest second⟩

theorem Interleaves.append_gap {partitions entries : List Partition} {offset size : Nat}
    (positive : 0 < size) (interleaves : Interleaves partitions entries) :
    Interleaves partitions (entries ++ [rawPartition offset size]) := by
  induction interleaves with
  | nil => exact .gap positive .nil
  | keep _ ih => exact .keep ih
  | gap gapPositive _ ih => exact .gap gapPositive ih

/-- From the second partition on: after a partition `previous`, `fillGaps`
covers the space from its end to the end of the last partition. -/
theorem fillGaps_some_tiles {last : Partition} : ∀ {previous : Partition} {rest : List Partition},
    (previous :: rest).Chain' (fun earlier later => earlier.offset + earlier.size ≤ later.offset) →
    (previous :: rest).getLast? = some last →
    Interleaves rest (fillGaps (some previous) rest) ∧
      Tiles (previous.offset + previous.size) (last.offset + last.size) (fillGaps (some previous) rest)
  | previous, [], _, isLast => by
    cases Option.some.inj isLast
    exact ⟨.nil, rfl⟩
  | previous, partition :: rest, ordered, isLast => by
    obtain ⟨apart, orderedRest⟩ := List.chain'_cons.mp ordered
    obtain ⟨interleaves, tiles⟩ := fillGaps_some_tiles orderedRest isLast
    by_cases gap : previous.offset + previous.size < partition.offset
    · simp only [fillGaps, if_pos gap, List.singleton_append]
      exact ⟨.gap (by omega) (.keep interleaves), rfl, by simp; omega, tiles⟩
    · simp only [fillGaps, if_neg gap, List.nil_append]
      exact ⟨.keep interleaves, by omega, tiles⟩

/-- `fillGaps` from the first partition: a `RAW` entry from `0` when the first
partition does not start there, then the partitions and their gaps up to the
end of the last one. -/
theorem fillGaps_none_tiles {first last : Partition} {rest : List Partition}
    (ordered : (first :: rest).Chain' fun earlier later => earlier.offset + earlier.size ≤ later.offset)
    (isLast : (first :: rest).getLast? = some last) :
    Interleaves (first :: rest) (fillGaps none (first :: rest)) ∧
      Tiles 0 (last.offset + last.size) (fillGaps none (first :: rest)) := by
  obtain ⟨interleaves, tiles⟩ := fillGaps_some_tiles ordered isLast
  by_cases lead : first.offset = 0
  · simp only [fillGaps, lead, ne_eq, not_true_eq_false, if_false, List.nil_append]
    exact ⟨.keep interleaves, lead, tiles⟩
  · simp only [fillGaps, ne_eq, lead, not_false_eq_true, if_true, List.singleton_append]
    exact ⟨.gap (by omega) (.keep interleaves), rfl, by simp, tiles⟩

theorem layoutEntries_layout {diskSize : Nat} (positive : 0 < diskSize) {partitions : List Partition}
    (ordered : partitions.Chain' fun earlier later => earlier.offset + earlier.size ≤ later.offset)
    (fits : ∀ last ∈ partitions.getLast?, last.offset + last.size ≤ diskSize) :
    Interleaves partitions (layoutEntries partitions diskSize) ∧
      Tiles 0 diskSize (layoutEntries partitions diskSize) ∧
      (partitions = [] → layoutEntries partitions diskSize = [rawPartition 0 diskSize]) := by
  cases partitions with
  | nil => exact ⟨.gap positive .nil, ⟨rfl, by simp [Tiles]⟩, fun _ => rfl⟩
  | cons first rest =>
    obtain ⟨last, isLast⟩ := Option.isSome_iff_exists.mp
      (List.getLast?_isSome.mpr (List.cons_ne_nil first rest))
    obtain ⟨interleaves, tiles⟩ := fillGaps_none_tiles ordered isLast
    have inside := fits last isLast
    refine ⟨?_, ?_, fun empty => absurd empty (List.cons_ne_nil first rest)⟩ <;>
      simp only [layoutEntries, isLast] <;> split_ifs with trailing
    · exact interleaves.append_gap (by omega)
    · simpa using interleaves
    · exact tiles.append ⟨rfl, by simp [Tiles]; omega⟩
    · simpa [show last.offset + last.size = diskSize by omega] using tiles

/-- For partitions sorted by offset, each ending before the next begins and
the last ending inside the disk, `fullPartitions` lays out the partitions in
their order with `RAW` entries of positive size in the gaps, and the entries
cover `[0, size)` edge to edge; a disk without partitions is one `RAW`
entry. -/
theorem layoutEntries_tiles {diskSize : Nat} (positive : 0 < diskSize) {partitions : List Partition}
    (ordered : partitions.Chain' fun earlier later => earlier.offset + earlier.size ≤ later.offset)
    (fits : ∀ last ∈ partitions.getLast?, last.offset + last.size ≤ diskSize) :
    Interleaves partitions (layoutEntries partitions diskSize) ∧
      Tiles 0 diskSize (layoutEntries partitions diskSize) ∧
      (partitions = [] → layoutEntries partitions diskSize = [rawPartition 0 diskSize]) :=
  layoutEntries_layout positive ordered fits

theorem layoutEntries_tiles_with_gaps :
    0 < 300 ∧
      [(⟨some "a", none, 50, 50, false, 0, false⟩ : Partition), ⟨some "b", none, 150, 100, false, 0, false⟩].Chain'
        (fun earlier later => earlier.offset + earlier.size ≤ later.offset) ∧
      (∀ last ∈ [(⟨some "a", none, 50, 50, false, 0, false⟩ : Partition),
        ⟨some "b", none, 150, 100, false, 0, false⟩].getLast?, last.offset + last.size ≤ 300) ∧
      (Interleaves [⟨some "a", none, 50, 50, false, 0, false⟩, ⟨some "b", none, 150, 100, false, 0, false⟩]
          (layoutEntries [⟨some "a", none, 50, 50, false, 0, false⟩,
            ⟨some "b", none, 150, 100, false, 0, false⟩] 300) ∧
        Tiles 0 300 (layoutEntries [⟨some "a", none, 50, 50, false, 0, false⟩,
          ⟨some "b", none, 150, 100, false, 0, false⟩] 300) ∧
        ([(⟨some "a", none, 50, 50, false, 0, false⟩ : Partition),
            ⟨some "b", none, 150, 100, false, 0, false⟩] = [] →
          layoutEntries [⟨some "a", none, 50, 50, false, 0, false⟩,
            ⟨some "b", none, 150, 100, false, 0, false⟩] 300 = [rawPartition 0 300])) :=
  have ordered : [(⟨some "a", none, 50, 50, false, 0, false⟩ : Partition),
      ⟨some "b", none, 150, 100, false, 0, false⟩].Chain'
      (fun earlier later => earlier.offset + earlier.size ≤ later.offset) := by
    simp [List.chain'_cons]
  have fits : ∀ last ∈ [(⟨some "a", none, 50, 50, false, 0, false⟩ : Partition),
      ⟨some "b", none, 150, 100, false, 0, false⟩].getLast?, last.offset + last.size ≤ 300 := by
    simp
  ⟨by decide, ordered, fits, layoutEntries_tiles (by decide) ordered fits⟩

/-- Tiling reads only offsets and sizes. -/
theorem Tiles.of_placements {stop : Nat} :
    ∀ {start : Nat} {entries entries' : List Partition},
      entries.map Partition.placement = entries'.map Partition.placement →
        Tiles start stop entries → Tiles start stop entries'
  | _, [], [], _, tiles => tiles
  | _, _ :: _, _ :: _, same, ⟨starts, tiles⟩ => by
    simp only [List.map_cons, List.cons.injEq, Partition.placement, Prod.mk.injEq] at same
    obtain ⟨⟨-, -, offset, size⟩, rest⟩ := same
    exact ⟨offset ▸ starts, offset ▸ size ▸ Tiles.of_placements rest tiles⟩

/-- What `fullPartitions` returns covers the disk edge to edge, for
partitions sorted by offset, each ending before the next begins and the last
ending inside the disk. -/
theorem fullPartitions_tiles {diskSize fuel : Nat} (positive : 0 < diskSize) {partitions result : List Partition}
    (ordered : partitions.Chain' fun earlier later => earlier.offset + earlier.size ≤ later.offset)
    (fits : ∀ last ∈ partitions.getLast?, last.offset + last.size ≤ diskSize)
    (returned : fullPartitions fuel partitions diskSize = some result) : Tiles 0 diskSize result :=
  (layoutEntries_layout positive ordered fits).2.1.of_placements (fullPartitions_placements returned).symm

end OvsFrontend.Containers

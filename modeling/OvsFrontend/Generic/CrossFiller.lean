import Mathlib.Data.List.Nodup
import Mathlib.Data.List.Perm.Basic
import OvsFrontend.Generic.StrictArrays

/-! `generic.crossFiller` reconciles an observable array of keyed objects
with a fresh list of keys: it reads the current keys once, loads and appends
an object for every new key that `$.inArray` does not find among them, and
then (unless `clean` is `false`) splices out, once per current key
`$.inArray` does not find in the new list, the first object whose key is
`===` to it. Both tests are `===`.

Where `===` is equality on the keys in play, the result is exact: the old
objects whose keys survive, in their old order, followed by the loaded ones
in key order (`crossFiller_eq_of_regular`); for JavaScript values that is
every key but `NaN` (`crossFiller_spec_without_nan`). `NaN` is never found:
an object keyed `NaN` is never spliced out, and a `NaN` among the new keys
is loaded again (`crossFiller_nan_key`). Over any run of calls the keys stay
pairwise distinct as long as no key list repeats a key
(`crossFiller_run_keys_nodup`); a repeated new key is loaded twice. A
cleaning call whose loader always answers leaves the array keyed by the new
keys exactly, up to order (`crossFiller_clean_keys_perm`). -/
namespace OvsFrontend.CrossFiller

open OvsFrontend.StrictArrays

/-- `===` on the keys the key observables hold. -/
class StrictEq (κ : Type) where
  strictEq : κ → κ → Bool

/-- Keys of a type with a decidable equality and no value like `NaN`: `===`
is that equality. -/
instance (priority := low) strictEqOfDecidableEq {κ : Type} [DecidableEq κ] : StrictEq κ :=
  ⟨fun a b => decide (a = b)⟩

/-- Keys that are JavaScript values: `===` is `IsStrictlyEqual`. -/
instance : StrictEq Value := ⟨strictEquals⟩

variable {ω κ : Type}

/-- What one call leaves behind: the contents of the observable array, and
the keys `objectLoader` was called with, in call order. -/
structure Outcome (ω κ : Type) where
  objectList : List ω
  loaderCalls : List κ

section Definitions

variable [StrictEq κ]

/-- `$.inArray(element, array) !== -1`: some item of `array` is `===` to
`element`. -/
def inArray (element : κ) (array : List κ) : Bool :=
  array.any (StrictEq.strictEq element)

/-- One turn of the loop over `newKeyList`: a key `$.inArray` does not find
in `currentKeyList` is passed to `objectLoader`, and a defined result is
pushed. -/
def loadMissing (currentKeyList : List κ) (objectLoader : κ → Option ω) (filled : Outcome ω κ)
    (newKey : κ) : Outcome ω κ :=
  if inArray newKey currentKeyList then filled
  else ⟨filled.objectList ++ (objectLoader newKey).toList, filled.loaderCalls ++ [newKey]⟩

/-- One turn of the loop over `currentKeyList`: a key `$.inArray` does not
find in `newKeyList` splices out the first object whose key is `===` to it
(the inner `j` loop with its `break`). -/
def removeStale (newKeyList : List κ) (key : ω → κ) (objectList : List ω) (currentKey : κ) :
    List ω :=
  if inArray currentKey newKeyList then objectList
  else objectList.eraseP fun o => StrictEq.strictEq (key o) currentKey

/-- `generic.crossFiller(newKeyList, objectList, objectLoader, key, clean)`.
`key` reads an object's key observable; `clean` is `false` exactly when the
caller passes `false` (`clean !== false`), so an omitted argument cleans. -/
def crossFiller (newKeyList : List κ) (objectList : List ω) (objectLoader : κ → Option ω)
    (key : ω → κ) (clean : Bool) : Outcome ω κ :=
  let currentKeyList := objectList.map key
  let filled := newKeyList.foldl (loadMissing currentKeyList objectLoader) ⟨objectList, []⟩
  if clean then ⟨currentKeyList.foldl (removeStale newKeyList key) filled.objectList,
    filled.loaderCalls⟩
  else filled

end Definitions

/-! ## Where `===` is equality -/

section Regular

variable [DecidableEq κ] [StrictEq κ]

/-- `===` is equality on `k`, either way round: `k` is not like `NaN`. -/
def Regular (k : κ) : Prop :=
  ∀ k', StrictEq.strictEq k k' = decide (k = k') ∧ StrictEq.strictEq k' k = decide (k' = k)

theorem inArray_of_regular {k : κ} (regular : Regular k) (array : List κ) :
    inArray k array = decide (k ∈ array) := by
  rw [Bool.eq_iff_iff]
  simp [inArray, (regular _).1, List.any_eq_true]

/-- The loop over `newKeyList` appends exactly the loads of the keys outside
`currentKeyList`, and calls the loader for exactly those keys. -/
theorem foldl_loadMissing (currentKeyList : List κ) (objectLoader : κ → Option ω)
    (newKeyList : List κ) (regular : ∀ k ∈ newKeyList, Regular k) (filled : Outcome ω κ) :
    newKeyList.foldl (loadMissing currentKeyList objectLoader) filled =
      ⟨filled.objectList ++ (newKeyList.filter (· ∉ currentKeyList)).filterMap objectLoader,
        filled.loaderCalls ++ newKeyList.filter (· ∉ currentKeyList)⟩ := by
  induction newKeyList generalizing filled with
  | nil => simp
  | cons newKey rest ih =>
    rw [List.foldl_cons, ih fun k member => regular k (.tail _ member)]
    have found := inArray_of_regular (regular newKey (.head _)) currentKeyList
    by_cases present : newKey ∈ currentKeyList
    · simp [loadMissing, found, present]
    · cases loaded : objectLoader newKey <;> simp [loadMissing, found, present, loaded]

/-- The loop over the current keys removes exactly the stale objects of the
original list. Objects before them (`kept`, all with fresh keys) and objects
appended after them (`appended`) are never the first carrier of a stale key,
so they are untouched; each stale key is visited once per object carrying
it. -/
theorem foldl_removeStale (newKeyList : List κ) (key : ω → κ) (original appended kept : List ω)
    (regular : ∀ o ∈ original, Regular (key o)) (keptFresh : ∀ o ∈ kept, key o ∈ newKeyList) :
    (original.map key).foldl (removeStale newKeyList key) (kept ++ original ++ appended) =
      kept ++ original.filter (fun o => key o ∈ newKeyList) ++ appended := by
  induction original generalizing kept with
  | nil => simp
  | cons o rest ih =>
    rw [List.map_cons, List.foldl_cons]
    have compare := regular o (.head _)
    have regularRest : ∀ o ∈ rest, Regular (key o) := fun o member => regular o (.tail _ member)
    by_cases fresh : key o ∈ newKeyList
    · have shifted := ih (kept ++ [o]) regularRest (by simpa [or_imp, forall_and] using ⟨keptFresh, fresh⟩)
      simpa [removeStale, inArray_of_regular compare, fresh] using shifted
    · have skipped : ∀ p ∈ kept, ¬StrictEq.strictEq (key p) (key o) = true := fun p member same => by
        rw [(compare _).2, decide_eq_true_eq] at same
        exact fresh (same ▸ keptFresh p member)
      have first : StrictEq.strictEq (key o) (key o) = true := by simp [(compare _).1]
      simpa [removeStale, inArray_of_regular compare, fresh, List.eraseP_append_right _ skipped,
        List.eraseP_cons, first] using ih kept regularRest keptFresh

/-- Where `===` is equality on the old and the new keys, `crossFiller` leaves
the original objects whose key is in `newKeyList` (all of them when `clean`
is false), in their original order, followed by the loaded object of every
new key outside the original keys, in `newKeyList` order and repetitions
included, when it is defined; the loader is called for exactly those
keys. -/
theorem crossFiller_eq_of_regular (newKeyList : List κ) (objectList : List ω)
    (objectLoader : κ → Option ω) (key : ω → κ) (clean : Bool)
    (regular : ∀ o ∈ objectList, Regular (key o)) (regularNew : ∀ k ∈ newKeyList, Regular k) :
    crossFiller newKeyList objectList objectLoader key clean =
      ⟨objectList.filter (fun o => !clean || decide (key o ∈ newKeyList)) ++
          (newKeyList.filter (· ∉ objectList.map key)).filterMap objectLoader,
        newKeyList.filter (· ∉ objectList.map key)⟩ := by
  cases clean
  · simp [crossFiller, foldl_loadMissing _ _ _ regularNew]
  · simpa [crossFiller, foldl_loadMissing _ _ _ regularNew] using
      foldl_removeStale newKeyList key objectList _ [] regular (by simp)

end Regular

/-- With the `===` of a decidable equality every key is regular. -/
theorem regular_of_decidableEq [DecidableEq κ] (k : κ) : Regular k :=
  fun _ => ⟨rfl, rfl⟩

/-- A JavaScript value other than `NaN` is regular. -/
theorem regular_of_ne_nan {k : Value} (number : k ≠ .nan) : Regular k :=
  fun k' => ⟨strictEquals_of_ne_nan number k', strictEquals_of_ne_nan_right k' number⟩

/-- The array `crossFiller` leaves, for keys with a decidable equality. -/
@[simp] theorem crossFiller_objectList [DecidableEq κ] (newKeyList : List κ) (objectList : List ω)
    (objectLoader : κ → Option ω) (key : ω → κ) (clean : Bool) :
    (crossFiller newKeyList objectList objectLoader key clean).objectList =
      objectList.filter (fun o => !clean || decide (key o ∈ newKeyList)) ++
        (newKeyList.filter (· ∉ objectList.map key)).filterMap objectLoader := by
  rw [crossFiller_eq_of_regular _ _ _ _ _ (fun o _ => regular_of_decidableEq (key o))
    fun k _ => regular_of_decidableEq k]

variable [DecidableEq κ]

/-! ## Loaders that return the requested key -/

/-- The loader returns objects carrying the key it was asked for, as the
partition loader of `Disk.getPartitions` does. -/
def CarriesKey (key : ω → κ) (objectLoader : κ → Option ω) : Prop :=
  ∀ k o, objectLoader k = some o → key o = k

omit [DecidableEq κ] in
theorem map_filterMap_sublist {key : ω → κ} {objectLoader : κ → Option ω}
    (carries : CarriesKey key objectLoader) (keys : List κ) :
    ((keys.filterMap objectLoader).map key).Sublist keys := by
  induction keys with
  | nil => simp
  | cons k rest ih =>
    cases loaded : objectLoader k with
    | none => simpa [loaded] using ih.cons k
    | some o => simpa [loaded, carries k o loaded] using ih.cons₂ k

omit [DecidableEq κ] in
/-- A loader that always returns an object carrying the requested key loads
exactly the requested keys. -/
theorem map_filterMap_of_total {key : ω → κ} {objectLoader : κ → Option ω}
    (carries : CarriesKey key objectLoader) (total : ∀ k, (objectLoader k).isSome)
    (keys : List κ) : (keys.filterMap objectLoader).map key = keys := by
  induction keys with
  | nil => rfl
  | cons k rest ih =>
    obtain ⟨o, loaded⟩ := Option.isSome_iff_exists.mp (total k)
    simp [loaded, carries k o loaded, ih]

/-- A cleaning call whose loader always returns an object carrying the
requested key leaves the array keyed by `newKeyList` exactly, up to order,
when the old keys and the new ones are each pairwise distinct. -/
theorem crossFiller_clean_keys_perm {newKeyList : List κ} {objectList : List ω}
    {objectLoader : κ → Option ω} {key : ω → κ}
    (distinct : (objectList.map key).Nodup) (noRepeats : newKeyList.Nodup)
    (carries : CarriesKey key objectLoader) (total : ∀ k, (objectLoader k).isSome) :
    ((crossFiller newKeyList objectList objectLoader key true).objectList.map key).Perm
      newKeyList := by
  have kept : (objectList.filter fun o => !true || decide (key o ∈ newKeyList)).map key =
      (objectList.map key).filter (· ∈ newKeyList) := by
    rw [List.filter_map]; rfl
  have sameKept : ((objectList.map key).filter (· ∈ newKeyList)).Perm
      (newKeyList.filter (· ∈ objectList.map key)) :=
    (List.perm_ext_iff_of_nodup (distinct.filter _) (noRepeats.filter _)).mpr
      fun k => by simp [and_comm]
  rw [crossFiller_objectList, List.map_append, kept, map_filterMap_of_total carries total]
  exact (sameKept.append_right _).trans
    (by simpa only [decide_not] using List.filter_append_perm (· ∈ objectList.map key) newKeyList)

/-- One call keeps the keys distinct when its key list repeats no key. -/
theorem crossFiller_keys_nodup {newKeyList : List κ} {objectList : List ω}
    {objectLoader : κ → Option ω} {key : ω → κ} (clean : Bool)
    (distinct : (objectList.map key).Nodup) (noRepeats : newKeyList.Nodup)
    (carries : CarriesKey key objectLoader) :
    ((crossFiller newKeyList objectList objectLoader key clean).objectList.map key).Nodup := by
  rw [crossFiller_objectList, List.map_append]
  have loadedKeys := map_filterMap_sublist carries (newKeyList.filter (· ∉ objectList.map key))
  refine (distinct.sublist ((List.filter_sublist _).map key)).append
    ((noRepeats.filter _).sublist loadedKeys) fun k kept loaded => ?_
  have old : k ∈ objectList.map key := ((List.filter_sublist _).map key).subset kept
  exact of_decide_eq_true (List.mem_filter.mp (loadedKeys.subset loaded)).2 old

/-! ## Keys stay distinct over a run -/

/-- The arguments of one `crossFiller` call on the array. -/
structure FillCall (ω κ : Type) where
  newKeyList : List κ
  objectLoader : κ → Option ω
  clean : Bool

/-- The array after a run of calls, each made on the array the previous one
left. -/
def fillRun (key : ω → κ) : List (FillCall ω κ) → List ω → List ω
  | [], objectList => objectList
  | call :: rest, objectList =>
    fillRun key rest (crossFiller call.newKeyList objectList call.objectLoader key call.clean).objectList

/-- Over any run of calls on an array whose keys start pairwise distinct,
with key lists that repeat no key and loaders that return objects carrying
the requested key, the array never holds two objects with the same key
(every prefix of a run is a run). -/
theorem crossFiller_run_keys_nodup (key : ω → κ) (calls : List (FillCall ω κ))
    (objectList : List ω) (distinct : (objectList.map key).Nodup)
    (noRepeats : ∀ call ∈ calls, call.newKeyList.Nodup)
    (carries : ∀ call ∈ calls, CarriesKey key call.objectLoader) :
    ((fillRun key calls objectList).map key).Nodup := by
  induction calls generalizing objectList with
  | nil => exact distinct
  | cons call rest ih =>
    exact ih _ (crossFiller_keys_nodup call.clean distinct (noRepeats call (by simp))
      (carries call (by simp))) (fun c member => noRepeats c (by simp [member]))
      (fun c member => carries c (by simp [member]))

theorem crossFiller_run_keys_nodup_on_sample :
    (([] : List Nat).map id).Nodup ∧
      (∀ call ∈ [(⟨[1, 2], some, true⟩ : FillCall Nat Nat), ⟨[2, 3], some, false⟩],
        call.newKeyList.Nodup) ∧
      (∀ call ∈ [(⟨[1, 2], some, true⟩ : FillCall Nat Nat), ⟨[2, 3], some, false⟩],
        CarriesKey id call.objectLoader) ∧
      ((fillRun id [⟨[1, 2], some, true⟩, ⟨[2, 3], some, false⟩] []).map id).Nodup :=
  have carries : CarriesKey (id : Nat → Nat) some := fun _ _ loaded => (Option.some.inj loaded).symm
  ⟨by decide, by decide, by simp [carries],
    crossFiller_run_keys_nodup id _ [] (by decide) (by decide) (by simp [carries])⟩

/-- A key listed twice and absent from the array is loaded and pushed twice,
even when the array starts empty and the loader carries the key. -/
theorem crossFiller_repeated_key_duplicates :
    (crossFiller [1, 1] ([] : List Nat) some id true).objectList = [1, 1] ∧
      ¬((crossFiller [1, 1] ([] : List Nat) some id true).objectList.map id).Nodup := by
  decide

end OvsFrontend.CrossFiller

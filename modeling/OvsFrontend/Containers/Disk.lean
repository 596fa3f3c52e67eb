import OvsFrontend.Generic.Service

/-! The state of a `Disk` view-model (`viewmodels/containers/disk.js`) that
its loading and partition logic reads and writes: the `loading` flag, the
request handles, the disk size and the observable array of `Partition`
view-models. A `Partition` is kept to the fields `Disk` touches. -/
namespace OvsFrontend.Containers

open OvsFrontend.Service

/-- The fields of a `Partition` view-model that `Disk` reads or writes. A
partition built by `new Partition()` has no guid; `relativeSize` and `small`
are the plain properties `fullPartitions` attaches. -/
structure Partition where
  guid : Option String
  state : Option String
  offset : Nat
  size : Nat
  loading : Bool
  relativeSize : Nat
  small : Bool
  deriving DecidableEq, Repr, Inhabited

/-- `new Partition(guid)`: the observables start unset (offset and size `0`
here). -/
def Partition.create (guid : Option String) : Partition :=
  ⟨guid, none, 0, 0, false, 0, false⟩

/-- The part of a `Disk` view-model that its loading logic works on: the
`loading` flag, the two request handles, the size and the partitions. -/
structure Disk where
  loading : Bool
  loadHandle : Option Request
  loadPartitions : Option Request
  size : Nat
  partitions : List Partition
  partitionsLoaded : Bool
  deriving DecidableEq, Repr

end OvsFrontend.Containers

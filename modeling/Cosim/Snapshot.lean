import Cosim.Record

/-!
# Snapshots

A snapshot collects one record per core.  Each core has a slot that is empty
until its record arrives, so which cores have reported, how many, and whether
the snapshot is complete are all read off the slots.

A record put twice is refused, and a refused record changes nothing.
-/

namespace Cosim

/-- The most cores that one snapshot can hold. -/
def maxCores : Nat := 64

/-- One record per core, as far as they have arrived. -/
structure Snapshot where
  /-- The number the exchange gave the snapshot when it was last published. -/
  seq : UInt64 := 0
  /-- The record of each core that has reported. -/
  slots : Array (Option CoreState)
deriving DecidableEq, Repr, Inhabited

namespace Snapshot

/-- An empty snapshot for the given number of cores. -/
def create (cores : Int) : Except Fault Snapshot :=
  if 1 ≤ cores ∧ cores ≤ maxCores then
    .ok { slots := Array.replicate cores.toNat none }
  else .error (.snapshotCores cores)

/-- The number of cores. -/
def cores (s : Snapshot) : Nat := s.slots.size

/-- The record of a core; the zero record until the core reports. -/
def record (s : Snapshot) (core : Nat) : CoreState :=
  (s.slots.getD core none).getD {}

/-- The records of all cores, in core order. -/
def records (s : Snapshot) : List CoreState :=
  s.slots.toList.map fun slot => slot.getD {}

/-- The core has reported. -/
def has (s : Snapshot) (core : Int) : Bool :=
  decide (0 ≤ core) && (s.slots.getD core.toNat none).isSome

/-- The number of cores that have reported. -/
def filled (s : Snapshot) : Nat := s.slots.toList.countP Option.isSome

/-- Every core has reported. -/
def complete (s : Snapshot) : Bool := s.filled == s.cores

/-- File the record of one core. -/
def put (s : Snapshot) (core : Int) (state : CoreState) : Except Error Snapshot :=
  if core < 0 ∨ s.cores ≤ core then .error (.coreRange core s.cores)
  else if s.has core then .error (.duplicateCore core.toNat)
  else .ok { s with slots := s.slots.set! core.toNat (some state) }

/-- Forget every record; the number stays. -/
def reset (s : Snapshot) : Snapshot :=
  { s with slots := Array.replicate s.cores none }

/-- The record of a core by an integer index. -/
def get (s : Snapshot) (core : Int) : Except Fault CoreState := do
  let i ← Fault.checkIndex core s.cores
  return s.record i

end Snapshot

end Cosim

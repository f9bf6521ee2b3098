/-!
# Faults

A fault is a broken precondition: a component built with impossible
parameters, an index outside its array, an exchange used after it was sealed.
Faults stop the call that meets them; they are kept apart from `Error`, which
holds the failures that a correct program has to expect.
-/

namespace Cosim

/-- The ways a caller can break a component's contract. -/
inductive Fault where
  /-- An index outside `[0, length)`. -/
  | index (index : Int) (length : Nat)
  /-- An allocation of more elements than memory can address. -/
  | allocation
  /-- A cut of a buffer that ends past its capacity. -/
  | cut (stop : Int) (capacity : Nat)
  /-- A hand-over to an exchange that is already sealed. -/
  | publishSealed
  /-- A second seal of an exchange. -/
  | sealTwice
  /-- An operation on a snapshot that nobody holds. -/
  | missing
  /-- A snapshot for an impossible number of cores. -/
  | snapshotCores (cores : Int)
  /-- A pool without chunks. -/
  | poolDepth (depth : Int)
  /-- A pool of empty chunks. -/
  | poolChunk (size : Int)
  /-- A device whose pool would have no chunks. -/
  | deviceDepth (depth : Int)
  /-- An assembler over chunks that do not hold one record. -/
  | assemblerChunk (size : Nat) (want : Nat)
  /-- A checker without cores. -/
  | checkerCores (cores : Int)
  /-- A watchdog without cores. -/
  | watchdogCores (cores : Int)
deriving DecidableEq, Repr, Inhabited

namespace Fault

/-- The text a fault is reported with. -/
def message : Fault → String
  | .index i n =>
      if i < 0 then s!"runtime error: index out of range [{i}]"
      else s!"runtime error: index out of range [{i}] with length {n}"
  | .allocation => "runtime error: makeslice: len out of range"
  | .cut stop capacity =>
      s!"runtime error: slice bounds out of range [::{stop}] with capacity {capacity}"
  | .publishSealed => "send on closed channel"
  | .sealTwice => "close of closed channel"
  | .missing => "runtime error: invalid memory address or nil pointer dereference"
  | .snapshotCores n => s!"diffstate.NewSnapshot: numCores must be in [1, 64], got {n}"
  | .poolDepth n => s!"mpool.New: depth must be >= 1, got {n}"
  | .poolChunk n => s!"mpool.New: chunkSize must be >= 1, got {n}"
  | .deviceDepth n => s!"xdma.New: PoolDepth must be >= 1, got {n}"
  | .assemblerChunk got want => s!"xdma.NewAssembler: chunk size {got}, want {want}"
  | .checkerCores n => s!"difftest.New: numCores must be >= 1, got {n}"
  | .watchdogCores n => s!"sim.NewWatchdog: numCores must be >= 1, got {n}"

/-- The most bytes that one allocation may ask for. -/
def addressable : Int := Nat.pow 2 48

/-- Refuse an allocation of `count` elements of `width` bytes that is negative
or larger than memory can address. -/
def checkAllocation (count : Int) (width : Nat) : Except Fault Unit :=
  if count < 0 ∨ count * width > addressable then .error .allocation else .ok ()

theorem checkAllocation_of_fits {count : Int} {width : Nat} (hcount : 0 ≤ count)
    (hfits : count * width ≤ addressable) : checkAllocation count width = .ok () :=
  if_neg (by omega)

theorem checkAllocation_of_exceeds {count : Int} {width : Nat}
    (hexceeds : addressable < count * width) : checkAllocation count width = .error .allocation :=
  if_pos (.inr hexceeds)

/-- The position that an integer index names in an array of length `n`. -/
def checkIndex (i : Int) (n : Nat) : Except Fault Nat :=
  if 0 ≤ i ∧ i < n then .ok i.toNat else .error (.index i n)

theorem checkIndex_of_lt {i n : Nat} (hi : i < n) : checkIndex i n = .ok i := by
  rw [checkIndex, if_pos (by omega), Int.toNat_natCast]

end Fault

end Cosim

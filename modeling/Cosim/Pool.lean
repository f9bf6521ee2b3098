import Cosim.Error
import Cosim.Fault

/-!
# The chunk pool

A pool owns a fixed number of chunks of equal size.  A chunk goes around a
circle: it waits in the free queue, a writer acquires it, fills and publishes
it, it waits in the busy queue, a reader acquires and releases it.

Chunks are named by handles.  Publishing and releasing check that the caller
really holds the chunk in the right state; a refused call changes nothing.

* `seal` ends publishing: what was published can still be acquired.
* `close` ends the pool: nothing more is handed out.

An acquisition that has to wait has no outcome: `freeOutcomes` and
`busyOutcomes` list what can happen now, and `acquireFree` and `acquireBusy`
take the first.
-/

namespace Cosim

/-- One chunk and who may touch it. -/
structure Slot where
  bytes : List UInt8
  state : ChunkState := .free
  /-- Checked out by a writer or a reader. -/
  held : Bool := false
deriving DecidableEq, Repr, Inhabited

/-- A fixed stock of chunks. -/
structure Pool where
  /-- The size of every chunk in bytes. -/
  size : Nat
  slots : Array Slot
  /-- Handles that wait for a writer, oldest first. -/
  free : List Nat
  /-- Handles that wait for a reader, oldest first. -/
  busy : List Nat := []
  /-- The number of chunks published and not yet released. -/
  busyCount : Int := 0
  isSealed : Bool := false
  isClosed : Bool := false
deriving DecidableEq, Repr, Inhabited

namespace Pool

/-- The bytes that the host spends on one slot besides its chunk. -/
def slotWidth : Nat := 32

/-- Check that a pool of these dimensions fits into memory: first its slots,
then the bytes of its chunks, whose number is computed in 64 bits. -/
def checkRoom (depth size : Int) : Except Fault Unit := do
  Fault.checkAllocation depth slotWidth
  let total := (depth * size).bmod (Nat.pow 2 64)
  Fault.checkAllocation total 1
  if total ≠ depth * size then
    throw (.cut ((total / size + 1) * size) total.toNat)

/-- A pool of `depth` free chunks of `size` zero bytes. -/
def create (depth size : Int) : Except Fault Pool := do
  if depth < 1 then throw (.poolDepth depth)
  if size < 1 then throw (.poolChunk size)
  checkRoom depth size
  return {
    size := size.toNat
    slots := Array.replicate depth.toNat { bytes := List.replicate size.toNat 0 }
    free := List.range depth.toNat }

/-- The number of chunks. -/
def depth (p : Pool) : Nat := p.slots.size

/-- The slot of a handle. -/
def slot (p : Pool) (h : Nat) : Slot := p.slots.getD h { bytes := [] }

/-- Change the slot of a handle. -/
def updateSlot (p : Pool) (h : Nat) (f : Slot → Slot) : Pool :=
  { p with slots := p.slots.modify h f }

/-- The state of a chunk. -/
def state (p : Pool) (h : Int) : Except Fault ChunkState := do
  let h ← Fault.checkIndex h p.depth
  return (p.slot h).state

/-- The bytes of a chunk. -/
def bytes (p : Pool) (h : Int) : Except Fault (List UInt8) := do
  let h ← Fault.checkIndex h p.depth
  return (p.slot h).bytes

/-- Overwrite bytes of a chunk from an offset on, as far as it reaches. -/
def write (p : Pool) (h offset : Nat) (data : List UInt8) : Pool :=
  p.updateSlot h fun s =>
    let data := data.take (p.size - offset)
    { s with bytes := s.bytes.take offset ++ data ++ s.bytes.drop (offset + data.length) }

/-- What acquiring a free chunk can lead to now. -/
def freeOutcomes (p : Pool) : List (Except Error (Nat × Pool)) :=
  (if p.isClosed then [.error .poolClosed] else []) ++
  (match p.free with
   | h :: rest => [.ok (h, { p with free := rest }.updateSlot h fun s => { s with held := true })]
   | [] => [])

/-- What acquiring a busy chunk can lead to now. -/
def busyOutcomes (p : Pool) : List (Except Error (Nat × Pool)) :=
  (if p.isClosed then [.error .poolClosed] else []) ++
  (match p.busy with
   | h :: rest => [.ok (h, { p with busy := rest }.updateSlot h fun s => { s with held := true })]
   | [] => if p.isSealed then [.error .poolClosed] else [])

/-- Acquire a chunk to fill. -/
def acquireFree (p : Pool) : Option (Except Error (Nat × Pool)) := p.freeOutcomes.head?

/-- Acquire a chunk to read. -/
def acquireBusy (p : Pool) : Option (Except Error (Nat × Pool)) := p.busyOutcomes.head?

/-- The handle, if its chunk is checked out in the wanted state. -/
def checkHeld (p : Pool) (action : PoolAction) (h : Int) (want : ChunkState) :
    Except Error Nat :=
  if h < 0 ∨ p.depth ≤ h then .error (.chunkNotHeld action h none)
  else
    let s := p.slot h.toNat
    if s.held ∧ s.state = want then .ok h.toNat
    else .error (.chunkNotHeld action h (some (s.state, s.held)))

/-- Give a filled chunk to the readers. -/
def publish (p : Pool) (h : Int) : Except Error Pool := do
  let h ← p.checkHeld .publish h .free
  if p.isSealed ∨ p.isClosed then throw .poolClosed
  return { p with busy := p.busy ++ [h], busyCount := p.busyCount + 1 }.updateSlot h
    fun s => { s with state := .busy, held := false }

/-- Give a chunk back to the writers. -/
def release (p : Pool) (h : Int) : Except Error Pool := do
  let h ← p.checkHeld .release h .busy
  return { p with free := p.free ++ [h], busyCount := p.busyCount - 1 }.updateSlot h
    fun s => { s with state := .free, held := false }

/-- End publishing. -/
def finish (p : Pool) : Pool := { p with isSealed := true }

/-- End the pool. -/
def close (p : Pool) : Pool := { p with isClosed := true }

end Pool

end Cosim

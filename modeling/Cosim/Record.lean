import Cosim.Error
import Cosim.Fault
import Cosim.Word

/-!
# Core state records

The hardware reports the state of one core as a record of 296 bytes, followed
on the wire by one byte that names the core.

* `TrapEvent` holds the trap flag and code, the program counter and the two
  retirement counters; `TrapEvent.cpi` is their quotient.
* `Commit` tells whether instructions were committed, and how many.
* `CoreState` is both together with the integer registers `x1` to `x31`.
* `CoreState.encode` and `CoreState.decode` are the two directions of the wire
  format.  Bytes 2 to 7, 32 to 39 and 42 to 47 are padding: written as zero and
  never read.

Offsets: flag 0, code 1, program counter 8, cycles 16, instructions 24, commit
flag 40, commit count 41, register `x(i+1)` at `48 + 8 * i`.
-/

namespace Cosim

/-- What a core last reported about its progress. -/
structure TrapEvent where
  /-- The core has hit a trap. -/
  hasTrap : Bool := false
  /-- The trap's code, meaningful when `hasTrap` holds. -/
  code : UInt8 := 0
  /-- Program counter. -/
  pc : UInt64 := 0
  /-- Cycles elapsed. -/
  cycles : UInt64 := 0
  /-- Instructions retired. -/
  instrs : UInt64 := 0
deriving DecidableEq, Repr, Inhabited

/-- Cycles per instruction; zero before the first instruction retires. -/
def TrapEvent.cpi (e : TrapEvent) : Float :=
  if e.instrs = 0 then 0 else e.cycles.toFloat / e.instrs.toFloat

/-- Instructions per cycle; zero before the first cycle. -/
def TrapEvent.ipc (e : TrapEvent) : Float :=
  if e.cycles = 0 then 0 else e.instrs.toFloat / e.cycles.toFloat

/-- What one core committed in a cycle. -/
structure Commit where
  valid : Bool := false
  /-- Instructions committed, meaningful when `valid` holds. -/
  count : UInt8 := 0
deriving DecidableEq, Repr, Inhabited

/-- The number of integer registers in a record: `x0` is not sent. -/
def numRegs : Nat := 31

/-- The size of one record in bytes. -/
def recordSize : Nat := 296

/-- The size of one record on the wire, its core byte included. -/
def chunkSize : Nat := 297

/-- The state of one core. -/
structure CoreState where
  trap : TrapEvent := {}
  commit : Commit := {}
  /-- Registers `x1` to `x31`. -/
  regs : Vector UInt64 numRegs := Vector.replicate numRegs 0
deriving DecidableEq, Repr, Inhabited

namespace CoreState

/-- A flag as it is written. -/
def flagByte (b : Bool) : UInt8 := if b then 1 else 0

/-- The record of a core state, always `recordSize` bytes. -/
def encode (s : CoreState) : List UInt8 :=
  [flagByte s.trap.hasTrap, s.trap.code] ++ List.replicate 6 0 ++
    wordBytes s.trap.pc ++ wordBytes s.trap.cycles ++ wordBytes s.trap.instrs ++
    List.replicate 8 0 ++
    [flagByte s.commit.valid, s.commit.count] ++ List.replicate 6 0 ++
    s.regs.toList.flatMap wordBytes

/-- Replace the bytes of a buffer from an offset on. -/
def overwrite (buffer : List UInt8) (offset : Nat) (data : List UInt8) : List UInt8 :=
  buffer.take offset ++ data ++ buffer.drop (offset + data.length)

/-- Write the fields before the registers, each at its offset.  A flag that is not set is
left as it is. -/
def putHead (s : CoreState) (buffer : List UInt8) : List UInt8 :=
  let b := if s.trap.hasTrap then overwrite buffer 0 [1] else buffer
  let b := overwrite b 1 [s.trap.code]
  let b := overwrite b 8 (wordBytes s.trap.pc)
  let b := overwrite b 16 (wordBytes s.trap.cycles)
  let b := overwrite b 24 (wordBytes s.trap.instrs)
  let b := if s.commit.valid then overwrite b 40 [1] else b
  overwrite b 41 [s.commit.count]

/-- Write registers, the `i`-th of all at its offset. -/
def putRegs (buffer : List UInt8) : (i : Nat) → List UInt64 → List UInt8
  | _, [] => buffer
  | i, r :: rest => putRegs (overwrite buffer (48 + 8 * i) (wordBytes r)) (i + 1) rest

/-- Write the record over the start of a buffer and keep the rest: the start is cleared, then
each field is written at its offset. -/
def encodeInto (s : CoreState) (buffer : List UInt8) : Except Fault (List UInt8) := do
  let _ ← Fault.checkIndex (recordSize - 1) buffer.length
  let cleared := overwrite buffer 0 (List.replicate recordSize 0)
  return putRegs (s.putHead cleared) 0 s.regs.toList

/-- A record as it travels: its bytes, then the byte that names the core. -/
def encodeChunk (core : UInt8) (s : CoreState) : List UInt8 :=
  s.encode ++ [core]

/-- The state that a buffer of `recordSize` bytes describes. -/
def ofBytes (b : List UInt8) : CoreState where
  trap :=
    { hasTrap := b.getD 0 0 != 0
      code := b.getD 1 0
      pc := wordOfBytes (b.drop 8)
      cycles := wordOfBytes (b.drop 16)
      instrs := wordOfBytes (b.drop 24) }
  commit := { valid := b.getD 40 0 != 0, count := b.getD 41 0 }
  regs := Vector.ofFn fun i => wordOfBytes (b.drop (48 + 8 * i.val))

/-- Read a record, which has to be exactly `recordSize` bytes. -/
def decode (b : List UInt8) : Except Error CoreState :=
  if b.length = recordSize then .ok (ofBytes b) else .error (.recordSize b.length)

end CoreState

end Cosim

import Cosim.Journal
import Cosim.Record

/-!
# Golden traces

A golden trace is a stream of records made by a trusted model.  Loading sorts
its records by core; comparing walks through the records of each core, one per
comparison and independently of the other cores.

A comparison looks at the commit, the registers and the program counter.
A core whose records are used up is no longer compared, and the first time that
happens is noted in the journal.
-/

namespace Cosim

/-- The golden records of one core. -/
structure GoldenLane where
  records : Array CoreState := #[]
  /-- The number of records compared. -/
  next : Nat := 0
  /-- The end of the records has been noted. -/
  exhausted : Bool := false
deriving DecidableEq, Repr, Inhabited

/-- A loaded golden trace. -/
structure Golden where
  /-- The records of each core. -/
  lanes : Array GoldenLane
  /-- The trace has been given up. -/
  released : Bool := false
deriving DecidableEq, Repr, Inhabited

namespace GoldenLane

/-- Add a record at the end. -/
def push (l : GoldenLane) (s : CoreState) : GoldenLane := { l with records := l.records.push s }

/-- The number of records not yet compared. -/
def remaining (l : GoldenLane) : Nat := l.records.size - l.next

end GoldenLane

namespace Golden

/-- The bytes that the host spends on one lane. -/
def laneWidth : Nat := 24

/-- A trace without records. -/
def empty (cores : Int) : Except Fault Golden := do
  Fault.checkAllocation cores laneWidth
  return { lanes := Array.replicate cores.toNat {} }

/-- The number of records, those already compared included. -/
def size (g : Golden) : Nat := g.lanes.toList.foldl (fun n lane => n + lane.records.size) 0

/-- Read the records of a stream from number `n` on into the lanes. -/
def loadFrom (cores : Int) (n : Nat) (g : Golden) (bytes : List UInt8) : Except Error Golden :=
  if h : bytes = [] then .ok g
  else if bytes.length < chunkSize then .error (.within s!"record {n}" .unexpectedEnd)
  else
    let core := (bytes.getD recordSize 0).toNat
    if cores ≤ core then .error (.within s!"record {n}" (.goldenCore core cores))
    else
      let state := CoreState.ofBytes (bytes.take recordSize)
      loadFrom cores (n + 1) { g with lanes := g.lanes.modify core (·.push state) }
        (bytes.drop chunkSize)
termination_by bytes.length
decreasing_by
  have := List.length_pos_iff.mpr h
  simp only [List.length_drop, chunkSize]
  omega

/-- Load a golden trace for so many cores. -/
def load (cores : Int) (bytes : List UInt8) : Except Fault (Except Error Golden) := do
  let g ← empty cores
  return loadFrom cores 0 g bytes

/-- The lane of a core.  A trace that was given up has no lanes. -/
def lane (g : Golden) (core : Int) : Except Fault GoldenLane := do
  let i ← Fault.checkIndex core (if g.released then 0 else g.lanes.size)
  return g.lanes.getD i {}

/-- The number of records of a core that have not been compared. -/
def remaining (g : Golden) (core : Int) : Except Fault Nat := do
  return (← g.lane core).remaining

/-- The design agrees with a golden record in everything that is compared. -/
def agrees (want got : CoreState) : Bool :=
  want.commit = got.commit ∧ want.regs = got.regs ∧ want.trap.pc = got.trap.pc

private def note (core : Nat) (what : String) (got want : UInt64) : Entry where
  level := .error
  message := s!"{what} different: dut={Text.hex got} ref={Text.hex want}"
  fields := [("core", .int core)]

/-- The entries that explain a disagreement: every register that differs, then
the program counter. -/
def explain (core : Nat) (want got : CoreState) : Journal :=
  ((List.range numRegs).filterMap fun i =>
    let w := want.regs.toList.getD i 0
    let g := got.regs.toList.getD i 0
    if w = g then none else some (note core s!"x{i + 1}" g w)) ++
  (if want.trap.pc = got.trap.pc then [] else [note core "pc" got.trap.pc want.trap.pc])

/-- Compare the state of a core with its next golden record. -/
def compare (g : Golden) (core : Int) (got : CoreState) :
    Except Fault (Golden × Bool × Journal) := do
  -- The places in the lanes outlive the records, so they are looked up first.
  let i ← Fault.checkIndex core g.lanes.size
  let l ← g.lane core
  match l.records[l.next]? with
  | none =>
    let warning : Entry :=
      { level := .warning
        message := s!"refproxy: golden trace for core {core} exhausted, comparison stopped" }
    return ({ g with lanes := g.lanes.set! i { l with exhausted := true } }, true,
      if l.exhausted then [] else [warning])
  | some want =>
    let g := { g with lanes := g.lanes.set! i { l with next := l.next + 1 } }
    if agrees want got then return (g, true, [])
    else return (g, false, explain i want got)

/-- Give the trace up. -/
def release (g : Golden) : Golden := { g with released := true }

end Golden

end Cosim

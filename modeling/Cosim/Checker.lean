import Cosim.Decimal.Fixed
import Cosim.Exchange
import Cosim.Golden

/-!
# The checker

The checker takes one snapshot per step, keeps the state of every core, counts
committed instructions, and compares each core with the golden trace, if there
is one.  Every core is compared in every step, also after another core has
differed.
-/

namespace Cosim

/-- The state of every core as of the last step. -/
structure Checker where
  golden : Option Golden
  cores : Array CoreState
  /-- Instructions committed by each core. -/
  commits : Array UInt64
  steps : UInt64 := 0
deriving Repr, Inhabited

namespace Checker

/-- The bytes that the host spends on the state of one core. -/
def stateWidth : Nat := 288

/-- A checker for so many cores. -/
def create (cores : Int) (golden : Option Golden) : Except Fault Checker := do
  if cores < 1 then throw (.checkerCores cores)
  Fault.checkAllocation cores stateWidth
  return {
    golden
    cores := Array.replicate cores.toNat {}
    commits := Array.replicate cores.toNat 0 }

/-- Take over the records of a snapshot, as far as both have the core. -/
def adopt (cores : Array CoreState) (records : List CoreState) : Array CoreState :=
  (cores.toList.zipIdx.map fun (old, i) => records.getD i old).toArray

/-- Count what a core committed. -/
def countCommits (commits : UInt64) (s : CoreState) : UInt64 :=
  if s.commit.valid then commits + s.commit.count.toUInt64 else commits

/-- Compare the cores from `core` on; the flag tells whether one differed. -/
def compareFrom (seq : UInt64) (core : Nat) (golden : Golden) :
    List CoreState → Golden × Bool × Journal
  | [] => (golden, false, [])
  | s :: rest =>
    match golden.compare core s with
    | .error _ => (golden, false, [])
    | .ok (golden, same, notes) =>
      let (golden, differs, more) := compareFrom seq (core + 1) golden rest
      let entry : Entry :=
        { level := .error
          message := s!"mismatch against reference at pc = {Text.hex s.trap.pc}"
          fields := [("core", .int core), ("snapshot", .word seq)] }
      (golden, !same || differs, notes ++ (if same then [] else [entry]) ++ more)

/-- Take in one snapshot; the flag tells whether a core differed. -/
def accept (c : Checker) (s : Snapshot) : Checker × Bool × Journal :=
  let cores := adopt c.cores s.records
  let commits := (c.commits.zip cores).map fun (n, s) => countCommits n s
  let c := { c with cores, commits, steps := c.steps + 1 }
  match c.golden with
  | none => (c, false, [])
  | some golden =>
    let (golden, differs, notes) := compareFrom s.seq 0 golden cores.toList
    ({ c with golden := some golden }, differs, notes)

/-- What one step can find. -/
structure Finding where
  checker : Checker
  exchange : Exchange
  /-- A core differed, or the step failed. -/
  result : Except Error Bool
  notes : Journal := []
deriving Inhabited

/-- Take the next snapshot, drain it and take it in; `none` means that there is
none yet. -/
def step (c : Checker) (x : Exchange) : Option Finding :=
  match x.take with
  | none => none
  | some (.error .exchangeSealed, x) =>
      some { checker := c, exchange := x, result := .error (.streamEnded c.steps) }
  | some (.error e, x) => some { checker := c, exchange := x, result := .error e }
  | some (.ok t, x) =>
    let s := x.snapshot t
    match (x.reset t).giveBack t with
    | .done x =>
      let (checker, differs, notes) := c.accept s
      some { checker, exchange := x, result := .ok differs, notes }
    | .waits | .refused => none

/-- The code of the first core that has trapped, or -1. -/
def trapState (c : Checker) : Int :=
  match c.cores.toList.find? (·.trap.hasTrap) with
  | some s => s.trap.code.toNat
  | none => -1

/-- What a core last reported. -/
def event (c : Checker) (core : Int) : Except Fault TrapEvent := do
  let i ← Fault.checkIndex core c.cores.size
  return (c.cores.getD i {}).trap

/-- The entry that sums up one core. -/
def statistics (c : Checker) (core : Int) : Except Fault Entry := do
  let ev ← c.event core
  return {
    level := .info
    message := "core statistics"
    fields := [
      ("core", .int core),
      ("instrCnt", .word ev.instrs),
      ("cycleCnt", .word ev.cycles),
      ("ipc", .text (Decimal.fixed 6 ev.ipc)),
      ("committed", .word (c.commits.getD core.toNat 0))] }

end Checker

end Cosim

import Cosim.Decimal.Fixed
import Cosim.Session

/-!
# Run metrics

The counters of a finished run and the text they are printed as.
-/

namespace Cosim

/-- Counters of a run, and the last event of each core. -/
structure Metrics where
  /-- Records read off the hardware stream. -/
  records : UInt64 := 0
  /-- Snapshots handed to the checker. -/
  snapshots : UInt64 := 0
  /-- Steps completed. -/
  steps : UInt64 := 0
  final : List TrapEvent := []
deriving Repr, Inhabited

namespace Metrics

/-- The metrics of a run; what was read and assembled is not known to it. -/
def ofRun (r : Run) : Metrics := { steps := r.outcome.steps, final := r.final.toList }

/-- Cycles per instruction of each core. -/
def coreCpi (m : Metrics) : List Float := m.final.map TrapEvent.cpi

/-- A number, followed by blanks up to the given width. -/
private def padded (width n : Nat) : String :=
  let text := n.repr
  text ++ String.ofList (List.replicate (width - text.length) ' ')

private def coreLine (core : Nat) (ev : TrapEvent) : String :=
  s!"Core {padded 2 core}              : instrCnt={ev.instrs.toNat} cycleCnt={ev.cycles.toNat} " ++
  s!"CPI={Decimal.fixed 4 ev.cpi}\n"

/-- The metrics as text. -/
def render (m : Metrics) : String :=
  "=== Co-simulation Metrics ===\n" ++
  s!"Records Read         : {m.records.toNat}\n" ++
  s!"Snapshots Assembled  : {m.snapshots.toNat}\n" ++
  s!"Steps Run            : {m.steps.toNat}\n" ++
  String.join (m.final.zipIdx.map fun (ev, core) => coreLine core ev)

end Metrics

end Cosim

import Cosim.Decimal.Shortest
import Cosim.Metrics
import Cosim.Yaml.Written

/-!
# Run reports

A report is the account of a finished run: how it ended, what was read and
assembled, where each core stood, and the summary of the trace if one was kept.
`Report.build` draws it up and `Report.render` writes it as a document of keys
and values.
-/

namespace Cosim

/-- Where one core stood at the end. -/
structure CoreReport where
  core : Nat
  /-- The core crossed the instruction ceiling. -/
  limitReached : Bool := false
  pc : UInt64
  instrs : UInt64
  cycles : UInt64
  cpi : Float
deriving Repr, Inhabited

/-- The account of a run. -/
structure Report where
  outcome : Outcome
  records : UInt64
  snapshots : UInt64
  cores : List CoreReport
  trace : Option TraceSummary
deriving Repr, Inhabited

namespace Report

/-- The row of one core.  A core that crossed the ceiling is shown with the
cycles per instruction of that moment. -/
def coreRow (info : EndInfo) (core : Nat) (ev : TrapEvent) : Except Fault CoreReport := do
  let row : CoreReport :=
    { core, pc := ev.pc, instrs := ev.instrs, cycles := ev.cycles, cpi := ev.cpi }
  if info.trapped.getD core false then
    let i ← Fault.checkIndex core info.cpi.size
    return { row with limitReached := true, cpi := info.cpi.getD i 0 }
  return row

/-- Draw up the report of a run. -/
def build (outcome : Outcome) (metrics : Metrics) (info : EndInfo) (final : List TrapEvent)
    (trace : Option Trace) : Except Fault Report := do
  let cores ← final.zipIdx.mapM fun (ev, core) => coreRow info core ev
  return {
    outcome, records := metrics.records, snapshots := metrics.snapshots, cores
    trace := trace.map Trace.summarize }

/-- Quotients have the fewest digits that read back, with an exponent below
`1e-4` and from `1e6` on. -/
def quotient : Decimal.Layout where
  least := -4
  most := 6
  nan := ".nan"
  infinity := ".inf"
  negativeInfinity := "-.inf"

/-- One key with its value.  A value that ends with a line break ends its line
itself. -/
private def line (indent : String) (key value : String) : String :=
  let ending := if value.toList.getLast?.any Yaml.isLineEnd then "" else "\n"
  indent ++ key ++ ": " ++ value ++ ending

private def truth (b : Bool) : String := if b then "true" else "false"

/-- The lines of one core. -/
private def CoreReport.lines (r : CoreReport) : String :=
  let inner := "      "
  line "    - " "core" r.core.repr ++
  line inner "instr_limit_reached" (truth r.limitReached) ++
  line inner "pc" (Yaml.writeText 2 (Text.hex r.pc)) ++
  line inner "instr_cnt" r.instrs.toNat.repr ++
  line inner "cycle_cnt" r.cycles.toNat.repr ++
  line inner "cpi" (Decimal.render quotient r.cpi)

/-- A text, left out when it is empty. -/
private def unlessEmpty (indent : String) (depth : Nat) (key value : String) : String :=
  if value.isEmpty then "" else line indent key (Yaml.writeText depth value)

/-- The lines of a trace summary. -/
private def summaryLines (s : TraceSummary) : String :=
  let inner := "    "
  "trace:\n" ++
  line inner "transitions" s.transitions.repr ++
  unlessEmpty inner 1 "final_status" s.finalStatus ++
  unlessEmpty inner 1 "final_cause" s.finalCause ++
  line inner "trap_events" s.trapEvents.repr ++
  line inner "watchdog_trips" s.watchdogTrips.repr ++
  line inner "mean_cpi" (Decimal.render quotient s.meanCpi) ++
  line inner "max_cpi" (Decimal.render quotient s.maxCpi) ++
  line inner "last_trip_step" s.lastTripStep.toNat.repr

/-- The report as a document. -/
def render (r : Report) : String :=
  let o := r.outcome
  line "" "status" (Yaml.writeText 0 o.status.name) ++
  line "" "cause" (Yaml.writeText 0 o.causeName) ++
  line "" "trap_code" (toString o.trapCode) ++
  unlessEmpty "" 0 "error" ((o.failure.map Error.message).getD "") ++
  line "" "exit_code" (toString o.exitCode) ++
  line "" "steps" o.steps.toNat.repr ++
  line "" "records_read" r.records.toNat.repr ++
  line "" "snapshots_assembled" r.snapshots.toNat.repr ++
  (if r.cores.isEmpty then "cores: []\n"
   else "cores:\n" ++ String.join (r.cores.map CoreReport.lines)) ++
  (r.trace.map summaryLines).getD ""

end Report

end Cosim

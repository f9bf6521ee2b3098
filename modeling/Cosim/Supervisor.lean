import Cosim.Config
import Cosim.Files
import Cosim.Pipeline
import Cosim.Report

/-!
# Supervised runs

A supervised run opens the hardware stream and the golden trace, builds the
pipeline between them, steps it until the run ends, and draws up its account.
-/

namespace Cosim

/-- The account of a run that has ended. -/
structure RunResult where
  outcome : Outcome
  metrics : Metrics
  info : EndInfo
  final : List TrapEvent
  trace : Option Trace
deriving Inhabited

/-- Write a report to a path. -/
def Report.save (r : Report) (files : Files) (path : String) : Except Error Files :=
  match files.write path r.render.toUTF8.toList with
  | .ok files => .ok files
  | .error e => .error (.within "write report" e)

/-- The report of a run. -/
def RunResult.report (r : RunResult) : Except Fault Report :=
  Report.build r.outcome r.metrics r.info r.final r.trace

namespace Supervisor

/-- What kind of stream a path carries, and the bytes it delivers. -/
def streamOf : FileEntry → Except Error (String × Source)
  | .regular bytes => .ok ("recorded stream", { queue := bytes, tail := .ended .finished })
  | .fifo => .ok ("fifo", {})
  | .zeros => .ok ("character device", { tail := .zeros })
  | .nothing => .ok ("character device", { tail := .ended .finished })
  | .directory => .error (.notStream Files.directoryMode)

/-- Open the hardware stream. -/
def openDevice (files : Files) (path : String) : Except Error (Source × Journal) :=
  match files.openPath path with
  | .error e => .error (.within s!"xdma: open {path}" e)
  | .ok entry =>
    match streamOf entry with
    | .error e => .error (.within s!"xdma: {path}" e)
    | .ok (kind, source) =>
      .ok (source, [{ level := .info, message := s!"xdma: opened {path} ({kind})" }])

/-- Open the golden trace.  Reference models in the form of shared objects are
known by the end of their path. -/
def openReference (files : Files) (path : String) (cores : Int) :
    Except Fault (Except Error (Golden × Journal)) :=
  if path.endsWith ".so" then .ok (.error (.sharedObject path))
  else
    match files.openPath path with
    | .error e => .ok (.error (.within "refproxy" e))
    | .ok entry =>
      let place := s!"refproxy: {path}"
      match Files.contents path entry with
      | .error e => do
        -- The lanes are made before the first record is read.
        let _ ← Golden.empty cores
        return .error (.within place (.within "record 0" e))
      | .ok bytes => do
        match ← Golden.load cores bytes with
        | .error e => return .error (.within place e)
        | .ok g =>
          return .ok (g, [{ level := .info, message := s!"refproxy: loaded golden trace {path}" }])

/-- The golden trace that a configuration asks for, if any.  Where no reference
models are known the run goes without. -/
def referenceOf (files : Files) (config : Config) (known : Bool) :
    Except Fault (Except Error (Option Golden)) := do
  if config.noDiff ∨ config.diff = "" ∨ !known then return .ok none
  match ← openReference files config.diff config.cores with
  | .error e => return .error (.within "reference model" e)
  | .ok (g, _) => return .ok (some g)

/-- Step a pipeline until its run ends; `fuel` bounds the calls. -/
def drive (batch : Int) : Nat → Pipeline → Pipeline
  | 0, p => p
  | fuel + 1, p =>
    if p.session.run.isRunning then
      drive batch fuel (Pipeline.settle (p.steps batch false))
    else p

/-- The number of calls after which the run of a pipeline has ended: each takes a
snapshot, the stream holds at most one for every record, and a stream without
end can differ from the golden trace only as long as that lasts. -/
def patience (p : Pipeline) : Nat :=
  p.device.source.queue.length / chunkSize +
    (p.session.oracle.checker.golden.map Golden.size).getD 0 + 2

/-- The account of a pipeline. -/
def account (p : Pipeline) : RunResult :=
  let run := p.session.run
  let device := p.device
  { outcome := run.outcome
    metrics :=
      { Metrics.ofRun run with
        records := device.reader.records, snapshots := device.assembler.snapshots }
    info := run.watchdog.info
    final := run.final.toList
    trace := run.trace }

/-- Open what a configuration names and build the pipeline.  `known` tells whether
reference models are known. -/
def prepare (files : Files) (config : Config) (known : Bool) :
    Except Fault (Except Error Pipeline) := do
  match openDevice files config.image with
  | .error e => return .error e
  | .ok (source, _) =>
    match ← referenceOf files config known with
    | .error e => return .error e
    | .ok golden =>
      let p ← Pipeline.create source config.cores config.poolDepth golden config.maxInstrs
        config.traceLevel
      return .ok p

/-- Run a pipeline to its end and close what it uses. -/
def complete (p : Pipeline) (batch : Int) : RunResult :=
  let p := drive batch (patience p) (p.withDevice p.device.start).settle
  let p : Pipeline := { p with session := p.session.finish }
  account (p.withDevice p.device.stop.1).settle

/-- Run a configuration.  `cancelled` tells that the caller has given up before
the run begins. -/
def run (files : Files) (config : Config) (known cancelled : Bool) :
    Except Fault (Except Error RunResult) := do
  match ← prepare files config known with
  | .error e => return .error e
  | .ok p =>
    if cancelled then return .error .cancelled
    return .ok (complete p config.stepBatch)

end Supervisor

end Cosim

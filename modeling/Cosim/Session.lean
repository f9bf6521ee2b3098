import Cosim.Journal
import Cosim.Outcome
import Cosim.Trace
import Cosim.Watchdog

/-!
# Run control

A session steps an oracle until something ends the run: a mismatch, a trap, an
error, or every core crossing the instruction ceiling.

* `Oracle` is what the session steps.  A step begins, may have to wait, and
  answers; the session asks for the trap state and the events of the cores only
  after an answer.
* `Run` is the state that the session keeps.  Its status leaves `running` at
  most once, in `Session.transition`.
* A step has three parts that other calls may come between: `enter` looks at
  the status, the oracle answers, and `conclude` draws the consequences.  An
  answer that comes after the run has ended is dropped.
* Statistics are shown once when a run ends; a run that is aborted from outside
  shows them at the next step or at `finish`.
-/

namespace Cosim

/-- What an oracle says at the end of a step. -/
structure Answer (σ : Type) where
  oracle : σ
  /-- Whether the design differs from the reference, or why the step failed. -/
  result : Except Error Bool
  notes : Journal := []

/-- Something that can be stepped and questioned. -/
class Oracle (σ : Type) where
  /-- Begin a step. -/
  begin : σ → σ
  /-- Finish the step that has begun; `none` means that it has to wait.  The
  flag tells that nobody waits for it any more. -/
  poll : σ → Bool → Option (Answer σ)
  /-- The trap code of the design, `trapRunning` if it has not trapped. -/
  trapState : σ → Int
  /-- What a core last reported. -/
  event : σ → Nat → TrapEvent
  /-- Show the statistics of a core. -/
  display : σ → Nat → σ × Journal

/-- The state of a run. -/
structure Run where
  watchdog : Watchdog
  trace : Option Trace := none
  outcome : Outcome := {}
  /-- The last event of each core, as far as it is known. -/
  final : Array TrapEvent
  /-- The statistics have been shown. -/
  dumped : Bool := false
  /-- Whoever waits for the end has been told. -/
  halted : Bool := false
deriving Repr, Inhabited

namespace Run

/-- The bytes that the host spends on the last event of one core. -/
def eventWidth : Nat := 32

/-- A run of so many cores under an instruction ceiling. -/
def create (limit : UInt64) (cores : Int) (trace : Option Trace) : Except Fault Run := do
  let watchdog ← Watchdog.create limit cores
  Fault.checkAllocation cores eventWidth
  return { watchdog, trace, final := Array.replicate cores.toNat {} }

/-- The number of cores. -/
def cores (r : Run) : Nat := r.final.size

/-- The run has not ended. -/
def isRunning (r : Run) : Bool := r.outcome.status == .running

/-- What waiting for the end of the run can lead to now.  A caller that has given
up gets the outcome as it stands, with an error. -/
def waitOutcomes (r : Run) (cancelled : Bool) : List (Outcome × Option Error) :=
  (if r.halted then [(r.outcome, none)] else []) ++
  (if cancelled then [(r.outcome, some .cancelled)] else [])

end Run

/-- A run and the oracle it steps. -/
structure Session (σ : Type) where
  run : Run
  oracle : σ
  journal : Journal := []

namespace Session

variable {σ : Type}

/-- Write entries into the journal. -/
def log (s : Session σ) (entries : Journal) : Session σ :=
  { s with journal := s.journal ++ entries }

/-- Change what the trace holds, if the run is traced. -/
def traced (s : Session σ) (f : Trace → Trace) : Session σ :=
  { s with run := { s.run with trace := s.run.trace.map f } }

/-- Keep the event of a core. -/
def setFinal (s : Session σ) (core : Nat) (event : TrapEvent) : Session σ :=
  { s with run := { s.run with final := s.run.final.set! core event } }

/-- End the run, unless it has ended already. -/
def transition (s : Session σ) (status : RunStatus) (code : Int) (cause : Cause)
    (failure : Option Error) : Session σ :=
  let old := s.run.outcome
  if old.status = .running then
    let outcome := { old with status, trapCode := code, cause := some cause, failure }
    let record : TransitionRecord :=
      { step := old.steps
        source := old.status.name
        target := status.name
        trapCode := code
        cause := cause.name
        failure := (failure.map Error.message).getD "" }
    let s := { s with run := { s.run with outcome, halted := true } }.traced
      (·.recordTransition record)
    let fields := [("step", FieldValue.word old.steps), ("cause", .text cause.name)]
    match failure with
    | none => s.log [{ level := .info, message := "simulation result::PASS", fields }]
    | some e =>
      s.log [{ level := .error, message := s!"simulation result::FAIL: {e.message}", fields }]
  else s

variable [Oracle σ]

/-- Show the statistics of a core. -/
def present (s : Session σ) (core : Nat) : Session σ :=
  let (oracle, notes) := Oracle.display s.oracle core
  { s with oracle }.log notes

/-- Show the statistics of every core and keep their events, once. -/
def dump (s : Session σ) : Session σ :=
  if s.run.dumped then s
  else
    (List.range s.run.cores).foldl
      (fun s core => (s.setFinal core (Oracle.event s.oracle core)).present core)
      { s with run := { s.run with dumped := true } }

/-- Note a core at the trap that ends the run. -/
def noteTrap (code : Int) (s : Session σ) (core : Nat) : Session σ :=
  let ev := Oracle.event s.oracle core
  let fields : List (String × FieldValue) :=
    [("core", .int core), ("instrCnt", .word ev.instrs), ("cycleCnt", .word ev.cycles)]
  let entry : Entry :=
    if code = trapGood then
      { level := .info, message := s!"HIT GOOD TRAP at pc = {Text.hex ev.pc}", fields }
    else { level := .error, message := s!"Unknown trap code: {code}", fields }
  let record : TrapRecord :=
    { step := s.run.outcome.steps, core, code, pc := ev.pc, instrs := ev.instrs
      cycles := ev.cycles }
  ((((s.setFinal core ev).log [entry]).traced (·.recordTrap record))).present core

/-- End the run by a trap of the design. -/
def endByTrap (s : Session σ) (code : Int) : Session σ :=
  let s := { s with run := { s.run with dumped := true } }
  let s := (List.range s.run.cores).foldl (noteTrap code) s
  if code = trapGood then s.transition .done code .goodTrap none
  else s.transition .failed code .trapCode (some (.trapCode code))

/-- Note a core that crossed the ceiling. -/
def noteTrip (s : Session σ) (trip : Trip) : Session σ :=
  let entry : Entry :=
    { level := .info
      message := s!"EXCEEDED CORE-{trip.core} MAX INSTR: {Text.hex s.run.watchdog.limit}"
      fields :=
        [("core", .int trip.core), ("instrCnt", .word trip.event.instrs), ("cpi", .real trip.cpi)] }
  let record : WatchdogRecord :=
    { step := s.run.outcome.steps, core := trip.core, instrs := trip.event.instrs
      cycles := trip.event.cycles, cpi := trip.cpi }
  (((s.setFinal trip.core trip.event).log [entry]).traced (·.recordTrip record)).present trip.core

/-- Look for cores above the ceiling, and end the run when all are. -/
def watch (s : Session σ) : Session σ :=
  if s.run.watchdog.enabled then
    let sweep := s.run.watchdog.check fun core => .ok (Oracle.event s.oracle core)
    let s := { s with run := { s.run with watchdog := sweep.watchdog } }
    let s := sweep.trips.foldl noteTrip s
    if s.run.watchdog.allTrapped then
      { s with run := { s.run with dumped := true } }.transition .done trapRunning .instrLimit none
    else s
  else s

/-- Draw the consequences of an answer.  The flag tells that the caller has
given up, which excuses a failed step. -/
def conclude (s : Session σ) (result : Except Error Bool) (cancelled : Bool) : Session σ :=
  if !s.run.isRunning then s.dump
  else
    match result with
    | .error e =>
      if cancelled then s
      else
        (s.transition .failed trapRunning .fatal
          (some (.fatal (some (s.run.outcome.steps + 1)) e))).dump
    | .ok differs =>
      let steps := s.run.outcome.steps + 1
      let s := { s with run := { s.run with outcome := { s.run.outcome with steps } } }
      if differs then
        (s.transition .failed trapRunning .mismatch (some (.mismatch steps))).dump
      else
        let code := Oracle.trapState s.oracle
        if code ≠ trapRunning then s.endByTrap code else s.watch

/-- Begin a step of the oracle. -/
def launch (s : Session σ) : Session σ := { s with oracle := Oracle.begin s.oracle }

/-- End the run from outside. -/
def abort (s : Session σ) (e : Error) : Session σ :=
  s.transition .failed trapRunning .fatal (some (.fatal none e))

/-- Show the statistics of a run that has ended. -/
def finish (s : Session σ) : Session σ := if s.run.isRunning then s else s.dump

/-- Finish the step in flight and the `left` steps after it, as far as nothing
has to wait.  The number of steps still wanted is returned with a step in
flight, if there is one. -/
def fly (cancelled : Bool) (left : Nat) (s : Session σ) : Session σ × Option Nat :=
  match Oracle.poll s.oracle (cancelled || s.run.halted) with
  | none => (s, some left)
  | some answer =>
    let s := ({ s with oracle := answer.oracle }.log answer.notes).conclude answer.result cancelled
    match left with
    | 0 => (s, none)
    | left + 1 =>
      if s.run.isRunning && !cancelled then fly cancelled left s.launch else (s, none)

/-- Start one step.  A run that has ended only shows its statistics. -/
def step (s : Session σ) (cancelled : Bool) : Session σ × Option Nat :=
  if s.run.isRunning then s.launch.fly cancelled 0 else (s.dump, none)

/-- Start up to `n` steps. -/
def steps (s : Session σ) (n : Int) (cancelled : Bool) : Session σ × Option Nat :=
  if 0 < n && s.run.isRunning && !cancelled then s.launch.fly cancelled (n.toNat - 1)
  else (s, none)

end Session

end Cosim

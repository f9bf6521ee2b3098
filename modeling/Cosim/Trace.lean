/-!
# Run traces

A trace keeps what happened in a run: the change of status that ended it, the
state of each core when it trapped, and each crossing of the instruction
ceiling.  `Trace.summarize` condenses a trace into counts.
-/

namespace Cosim

/-- A change of status. -/
structure TransitionRecord where
  step : UInt64 := 0
  source : String := ""
  target : String := ""
  trapCode : Int := 0
  cause : String := ""
  /-- The text of the error, empty unless the run failed. -/
  failure : String := ""
deriving DecidableEq, Repr, Inhabited

/-- A core at the moment of a trap. -/
structure TrapRecord where
  step : UInt64 := 0
  core : Int := 0
  code : Int := 0
  pc : UInt64 := 0
  instrs : UInt64 := 0
  cycles : UInt64 := 0
deriving DecidableEq, Repr, Inhabited

/-- A core that crossed the instruction ceiling. -/
structure WatchdogRecord where
  step : UInt64 := 0
  core : Int := 0
  instrs : UInt64 := 0
  cycles : UInt64 := 0
  cpi : Float := 0
deriving Repr, Inhabited

/-- What happened in a run, in order. -/
structure Trace where
  level : String
  transitions : List TransitionRecord := []
  traps : List TrapRecord := []
  trips : List WatchdogRecord := []
deriving Repr, Inhabited

/-- A trace in numbers. -/
structure TraceSummary where
  transitions : Nat := 0
  finalStatus : String := ""
  finalCause : String := ""
  trapEvents : Nat := 0
  watchdogTrips : Nat := 0
  meanCpi : Float := 0
  maxCpi : Float := 0
  lastTripStep : UInt64 := 0
deriving Repr, Inhabited

namespace Trace

/-- The level is one that a run can be configured with. -/
def isValidLevel (level : String) : Bool := level == "none" || level == "events" || level == ""

/-- A trace at a level; there is none at the levels that record nothing. -/
def create (level : String) : Option Trace :=
  if level == "none" || level == "" then none else some { level }

/-- Record a change of status. -/
def recordTransition (t : Trace) (r : TransitionRecord) : Trace :=
  { t with transitions := t.transitions ++ [r] }

/-- Record a core at a trap. -/
def recordTrap (t : Trace) (r : TrapRecord) : Trace := { t with traps := t.traps ++ [r] }

/-- Record a crossing of the ceiling. -/
def recordTrip (t : Trace) (r : WatchdogRecord) : Trace := { t with trips := t.trips ++ [r] }

private def meanOf (values : List Float) : Float :=
  if values.isEmpty then 0 else values.foldl (· + ·) 0 / Float.ofNat values.length

/-- Condense a trace. -/
def summarize (t : Trace) : TraceSummary where
  transitions := t.transitions.length
  finalStatus := (t.transitions.getLast?.map (·.target)).getD ""
  finalCause := (t.transitions.getLast?.map (·.cause)).getD ""
  trapEvents := t.traps.length
  watchdogTrips := t.trips.length
  meanCpi := meanOf (t.trips.map (·.cpi))
  maxCpi := t.trips.foldl (fun top r => if r.cpi > top then r.cpi else top) 0
  lastTripStep := t.trips.foldl (fun last r => if r.step > last then r.step else last) 0

/-- The summary of a run that may have no trace. -/
def summaryOf (t : Option Trace) : TraceSummary := (t.map summarize).getD {}

end Trace

end Cosim

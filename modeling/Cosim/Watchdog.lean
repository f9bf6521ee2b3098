import Cosim.Record

/-!
# The instruction watchdog

The watchdog flags each core once, the first time its instruction count is seen
above a ceiling, and remembers the cycles per instruction of that moment.  A
ceiling of zero turns it off.

`Watchdog.check` fetches the event of every core that is not flagged yet, in
core order.  Fetching may fault; what was flagged before stays flagged.
-/

namespace Cosim

/-- Which cores have crossed the ceiling. -/
structure EndInfo where
  trapped : Array Bool
  /-- Cycles per instruction at the crossing; zero for the other cores. -/
  cpi : Array Float
  /-- The number of flagged cores. -/
  count : Int := 0
deriving Repr, Inhabited

/-- One crossing of the ceiling. -/
structure Trip where
  core : Nat
  event : TrapEvent
  cpi : Float
deriving Repr, Inhabited

/-- The ceiling and the cores that have crossed it. -/
structure Watchdog where
  /-- The ceiling; zero means none. -/
  limit : UInt64
  info : EndInfo
deriving Repr, Inhabited

namespace Watchdog

/-- The bytes that the host spends on the cycles per instruction of one core. -/
def cpiWidth : Nat := 8

/-- A watchdog for so many cores. -/
def create (limit : UInt64) (cores : Int) : Except Fault Watchdog := do
  if cores < 1 then throw (.watchdogCores cores)
  -- The flags take a byte each, so there is room for them where there is for the figures.
  Fault.checkAllocation cores cpiWidth
  let n := cores.toNat
  return { limit, info := { trapped := Array.replicate n false, cpi := Array.replicate n 0 } }

/-- There is a ceiling. -/
def enabled (w : Watchdog) : Bool := w.limit != 0

/-- The number of cores watched. -/
def cores (w : Watchdog) : Nat := w.info.trapped.size

/-- The core has crossed the ceiling. -/
def isTrapped (w : Watchdog) (core : Nat) : Bool := w.info.trapped.getD core false

/-- Flag a core. -/
def flag (w : Watchdog) (core : Nat) (event : TrapEvent) : Watchdog :=
  { w with
    info :=
      { trapped := w.info.trapped.set! core true
        cpi := w.info.cpi.set! core event.cpi
        count := w.info.count + 1 } }

/-- What a check did. -/
structure Sweep where
  watchdog : Watchdog
  /-- The cores whose event was fetched, in order. -/
  asked : List Nat := []
  /-- The crossings found, in core order. -/
  trips : List Trip := []
  /-- The fault that cut the check short. -/
  fault : Option Fault := none
deriving Repr, Inhabited

/-- Look at the listed cores. -/
def sweep (w : Watchdog) (events : Nat → Except Fault TrapEvent) : List Nat → Sweep
  | [] => { watchdog := w }
  | core :: rest =>
    if w.isTrapped core then w.sweep events rest
    else
      match events core with
      | .error fault => { watchdog := w, fault := some fault }
      | .ok event =>
        if event.instrs ≤ w.limit then
          let s := w.sweep events rest
          { s with asked := core :: s.asked }
        else
          let s := (w.flag core event).sweep events rest
          { s with
            asked := core :: s.asked
            trips := { core, event, cpi := event.cpi } :: s.trips }

/-- Look at every core that is not flagged yet. -/
def check (w : Watchdog) (events : Nat → Except Fault TrapEvent) : Sweep :=
  if w.enabled then w.sweep events (List.range w.cores) else { watchdog := w }

/-- Every core has crossed the ceiling. -/
def allTrapped (w : Watchdog) : Bool := w.enabled && w.info.count == w.cores

end Watchdog

end Cosim

import Cosim.Checker
import Cosim.Device
import Cosim.Stepper

/-!
# The pipeline

A device, a checker on its exchange, and a session that steps the checker.
Errors that the device's workers report abort the session.

`Pipeline.settle` lets the workers and a step in flight go on until all of them
wait.  A step that needs a snapshot waits for the workers; workers that need
room wait for a step.
-/

namespace Cosim

/-- A checker and the device that feeds it. -/
structure Line where
  device : Device
  checker : Checker
deriving Inhabited

namespace Line

/-- Take the next snapshot, if there is one. -/
def poll (l : Line) (cancelled : Bool) : Option (Answer Line) :=
  match l.checker.step l.device.exchange with
  | some found =>
    some {
      oracle := { device := { l.device with exchange := found.exchange }, checker := found.checker }
      result := found.result
      notes := found.notes }
  | none => if cancelled then some { oracle := l, result := .error .cancelled } else none

instance : Oracle Line where
  begin := id
  poll := poll
  trapState l := l.checker.trapState
  event l core := ((l.checker.event core).toOption).getD {}
  display l core := (l, ((l.checker.statistics core).toOption).toList)

end Line

/-- A stepper over a device and its checker. -/
abbrev Pipeline := Stepper Line

namespace Pipeline

/-- A pipeline over a source. -/
def create (source : Source) (cores depth : Int) (golden : Option Golden) (limit : UInt64)
    (level : String) : Except Fault Pipeline := do
  let device ← Device.create source cores depth
  let checker ← Checker.create cores golden
  let run ← Run.create limit cores (Trace.create level)
  return { session := { run, oracle := { device, checker } } }

/-- The device. -/
def device (p : Pipeline) : Device := p.session.oracle.device

/-- Change the device. -/
def withDevice (p : Pipeline) (d : Device) : Pipeline :=
  { p with session := { p.session with oracle := { p.session.oracle with device := d } } }

/-- Run the workers until they wait, and abort the session for the errors they
report. -/
def settleDevice (p : Pipeline) : Pipeline :=
  let d := p.device.settle
  d.failures.foldl Stepper.abort (p.withDevice { d with failures := [] })

/-- Let workers and steps go on until all of them wait. -/
def settle (p : Pipeline) : Pipeline := go (p.wanted + 1) p
where
  go : Nat → Pipeline → Pipeline
    | 0, p => p
    | fuel + 1, p =>
      let p := p.settleDevice
      let q := p.resume
      if q.wanted < p.wanted then go fuel q else q

end Pipeline

end Cosim

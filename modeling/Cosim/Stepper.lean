import Cosim.Session

/-!
# Steps in flight

A step that has to wait stays in flight, and with it the steps that were asked
for after it.  A stepper is a session together with its flight, so that other
calls can come between the beginning and the end of a step.
-/

namespace Cosim

/-- A step that has begun and not ended. -/
structure Flight where
  /-- The number of steps wanted after it. -/
  left : Nat
  /-- Its caller has given up. -/
  cancelled : Bool
deriving DecidableEq, Repr, Inhabited

/-- A session with its step in flight. -/
structure Stepper (σ : Type) where
  session : Session σ
  flight : Option Flight := none

namespace Stepper

variable {σ : Type}

/-- The number of steps that are still wanted. -/
def wanted (s : Stepper σ) : Nat :=
  match s.flight with
  | none => 0
  | some f => f.left + 1

variable [Oracle σ]

/-- Keep what a call returned. -/
def landed (cancelled : Bool) : Session σ × Option Nat → Stepper σ
  | (session, left) => { session, flight := left.map fun left => { left, cancelled } }

/-- Start one step. -/
def step (s : Stepper σ) (cancelled : Bool) : Stepper σ :=
  landed cancelled (s.session.step cancelled)

/-- Start up to `n` steps. -/
def steps (s : Stepper σ) (n : Int) (cancelled : Bool) : Stepper σ :=
  landed cancelled (s.session.steps n cancelled)

/-- Let the step in flight go on. -/
def resume (s : Stepper σ) : Stepper σ :=
  match s.flight with
  | none => s
  | some f => landed f.cancelled (s.session.fly f.cancelled f.left)

/-- Give up on the step in flight. -/
def cancel (s : Stepper σ) : Stepper σ :=
  { s with flight := s.flight.map fun f => { f with cancelled := true } }

/-- End the run from outside. -/
def abort (s : Stepper σ) (e : Error) : Stepper σ := { s with session := s.session.abort e }

end Stepper

end Cosim

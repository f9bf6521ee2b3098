import Cosim.Error

/-!
# Outcomes

How a run stands or how it ended: its status, the trap code and cause that
ended it, the error if it failed, and the number of steps it took.
-/

namespace Cosim

/-- The status of a run. -/
inductive RunStatus where
  | running
  | done
  | failed
  /-- A status outside the known ones, by its code. -/
  | unknown (code : Int)
deriving DecidableEq, Repr, Inhabited

namespace RunStatus

/-- The status of a code; codes are 32 bits wide. -/
def ofCode (code : Int) : RunStatus :=
  match code.bmod (Nat.pow 2 32) with
  | 0 => .running
  | 1 => .done
  | 2 => .failed
  | n => .unknown n

/-- The name of a status. -/
def name : RunStatus → String
  | .running => "RUNNING"
  | .done => "DONE"
  | .failed => "FAILED"
  | .unknown code => s!"RunStatus({code})"

end RunStatus

/-- Why a run ended. -/
inductive Cause where
  /-- The design reported success. -/
  | goodTrap
  /-- The design reported another code. -/
  | trapCode
  /-- The design and the reference disagreed. -/
  | mismatch
  /-- Every core crossed the instruction ceiling. -/
  | instrLimit
  /-- An error ended the run. -/
  | fatal
  /-- A cause outside the known ones, by its name. -/
  | other (name : String)
deriving DecidableEq, Repr, Inhabited

/-- The name of a cause. -/
def Cause.name : Cause → String
  | .goodTrap => "good-trap"
  | .trapCode => "trap-code"
  | .mismatch => "mismatch"
  | .instrLimit => "instr-limit"
  | .fatal => "fatal"
  | .other name => name

/-- The trap code of a run that no trap has ended. -/
def trapRunning : Int := -1

/-- The trap code of success. -/
def trapGood : Int := 0

/-- How a run stands. -/
structure Outcome where
  status : RunStatus := .running
  trapCode : Int := trapRunning
  cause : Option Cause := none
  failure : Option Error := none
  steps : UInt64 := 0
deriving DecidableEq, Repr, Inhabited

namespace Outcome

/-- The name of the cause, empty while there is none. -/
def causeName (o : Outcome) : String := (o.cause.map Cause.name).getD ""

/-- The exit code that the outcome asks for: zero unless the run failed, else
one more than its trap code, up to 255, or one if it has none.  Integers are 64
bits wide. -/
def exitCode (o : Outcome) : Int :=
  match o.status with
  | .running | .done => 0
  | .failed | .unknown _ =>
    if 0 ≤ o.trapCode then min ((o.trapCode + 1).bmod (Nat.pow 2 64)) 255 else 1

end Outcome

end Cosim

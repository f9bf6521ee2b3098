import Cosim.Session

/-!
# Scripted oracles

An oracle that plays back a list of cues, one per step, for rehearsing a
session without hardware.  A step without a cue succeeds and changes nothing.
-/

namespace Cosim

/-- What one step of a scripted oracle does. -/
structure Cue where
  /-- The trap state from this step on. -/
  state : Option Int := none
  /-- The events of the cores from this step on. -/
  events : Option (Array TrapEvent) := none
  /-- Wait until nobody waits for the step any more. -/
  blocks : Bool := false
  /-- The error to end with, if not empty. -/
  failure : String := ""
  differs : Bool := false
deriving Repr, Inhabited

/-- An oracle that plays back cues. -/
structure Script where
  cues : List Cue := []
  state : Int := trapRunning
  events : Array TrapEvent := #[]
  /-- The cue of the step in flight. -/
  current : Cue := {}
  /-- The number of steps begun. -/
  calls : Nat := 0
  /-- The cores whose statistics were shown, in order. -/
  shown : List Nat := []
deriving Repr, Inhabited

namespace Script

/-- Begin a step with the next cue. -/
def begin (s : Script) : Script :=
  let cue := s.cues.headD {}
  { s with
    cues := s.cues.tail
    current := cue
    state := cue.state.getD s.state
    events := cue.events.getD s.events
    calls := s.calls + 1 }

/-- Finish a step as its cue says. -/
def poll (s : Script) (cancelled : Bool) : Option (Answer Script) :=
  if s.current.blocks then
    if cancelled then some { oracle := s, result := .error .cancelled } else none
  else if s.current.failure ≠ "" then
    some { oracle := s, result := .error (.text s.current.failure) }
  else some { oracle := s, result := .ok s.current.differs }

instance : Oracle Script where
  begin := begin
  poll := poll
  trapState := Script.state
  event s core := s.events.getD core {}
  display s core := ({ s with shown := s.shown ++ [core] }, [])

end Script

end Cosim

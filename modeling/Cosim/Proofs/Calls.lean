import Cosim.Proofs.RunControl

/-!
# What a session asks its oracle

Beside each part of a step stands the list of its calls to the oracle.

* `Oracle.Call` is one question to an oracle, and `Session.flyCalls` are those of the steps that end
  before one has to wait.
* `Session.Lands` says how a call comes to rest, where something happens to the oracle whenever a
  step waits.  `Session.RunsSteps` is a call for several steps, and `Session.RunsStep` for one.
* `Session.Drives` is the loop that calls until the run has ended.
-/

namespace Cosim

/-- A question to an oracle.  A step tells whether the run was going on. -/
inductive Oracle.Call where
  | step (running : Bool)
  | state
  | event (core : Nat)
  | display (core : Nat)
deriving DecidableEq, Repr

namespace Session

open Oracle (Call)

variable {σ : Type}

/-! ## The calls of a step -/

/-- The statistics of all cores are shown, each after its event. -/
def showCalls (s : Session σ) : List Call :=
  (List.range s.run.cores).flatMap fun core => [.event core, .display core]

def dumpCalls (s : Session σ) : List Call := if s.run.dumped then [] else s.showCalls

def finishCalls (s : Session σ) : List Call := if s.run.isRunning then [] else s.dumpCalls

variable [Oracle σ]

/-- The events of the cores that are not flagged, then the statistics of those that have crossed. -/
def watchCalls (s : Session σ) : List Call :=
  if s.run.watchdog.enabled then
    let sweep := s.run.watchdog.check fun core => .ok (Oracle.event s.oracle core)
    sweep.asked.map .event ++ sweep.trips.map fun trip => .display trip.core
  else []

def concludeCalls (s : Session σ) (result : Except Error Bool) : List Call :=
  if !s.run.isRunning then s.dumpCalls
  else
    match result with
    | .error _ => s.dumpCalls
    | .ok differs =>
      if differs then s.dumpCalls
      else .state ::
        if Oracle.trapState s.oracle ≠ trapRunning then s.showCalls else s.watchCalls

/-- The calls of `fly`, the beginning of the step in flight not included. -/
def flyCalls (left : Nat) (s : Session σ) : List Call :=
  match Oracle.poll s.oracle s.run.halted with
  | none => []
  | some answer =>
    let s := { s with oracle := answer.oracle }.log answer.notes
    let s' := s.conclude answer.result false
    s.concludeCalls answer.result ++
      match left with
      | 0 => []
      | left + 1 =>
        if s'.run.isRunning then .step s'.run.isRunning :: flyCalls left s'.launch else []

def stepCalls (s : Session σ) : List Call :=
  if s.run.isRunning then .step s.run.isRunning :: flyCalls 0 s.launch else s.dumpCalls

def stepsCalls (n : Int) (s : Session σ) : List Call :=
  if 0 < n && s.run.isRunning then .step s.run.isRunning :: flyCalls (n.toNat - 1) s.launch
  else []

/-! ## Calls that come to rest -/

/-- A call comes to rest: whenever a step waits, something happens to the oracle, and then the step
goes on. -/
inductive Lands (turn : σ → σ → Prop) : Session σ × Option Nat → List Call → Session σ → Prop
  | rested (s : Session σ) : Lands turn (s, none) [] s
  | waited {s last : Session σ} {left : Nat} {oracle : σ} {calls : List Call}
      (hturn : turn s.oracle oracle)
      (hrest : Lands turn (fly false left { s with oracle }) calls last) :
      Lands turn (s, some left) (flyCalls left { s with oracle } ++ calls) last

/-- A call for `n` steps asks this and leaves this session. -/
def RunsSteps (turn : σ → σ → Prop) (n : Int) (s : Session σ) (calls : List Call)
    (last : Session σ) : Prop :=
  ∃ rest, calls = s.stepsCalls n ++ rest ∧ Lands turn (s.steps n false) rest last

/-- A call for one step asks this and leaves this session. -/
def RunsStep (turn : σ → σ → Prop) (s : Session σ) (calls : List Call) (last : Session σ) : Prop :=
  ∃ rest, calls = s.stepCalls ++ rest ∧ Lands turn (s.step false) rest last

variable {turn : σ → σ → Prop} {s last : Session σ} {calls : List Call}

/-! ## Taking calls apart -/

theorem steps_of_ended (hend : s.run.isRunning = false) (n : Int) :
    s.steps n false = (s, none) ∧ s.stepsCalls n = [] := by
  simp [steps, stepsCalls, hend]

theorem steps_of_nonpos {n : Int} (hn : n ≤ 0) (s : Session σ) :
    s.steps n false = (s, none) ∧ s.stepsCalls n = [] := by
  have hnot : ¬ 0 < n := by omega
  simp [steps, stepsCalls, hnot]

theorem steps_of_running (hrun : s.run.isRunning = true) (n : Nat) :
    s.steps (n + 1 : Nat) false = s.launch.fly false n ∧
      s.stepsCalls (n + 1 : Nat) = .step true :: flyCalls n s.launch := by
  simp [steps, stepsCalls, hrun]

theorem fly_of_wait (hpoll : Oracle.poll s.oracle s.run.halted = none) (left : Nat) :
    s.fly false left = (s, some left) ∧ s.flyCalls left = [] := by
  constructor
  · unfold fly
    simp [hpoll]
  · unfold flyCalls
    simp [hpoll]

/-- The session when its step has been answered. -/
def answered (s : Session σ) (answer : Answer σ) : Session σ :=
  { s with oracle := answer.oracle }.log answer.notes

/-- The session when the consequences of the answer have been drawn. -/
def concluded (s : Session σ) (answer : Answer σ) : Session σ :=
  (s.answered answer).conclude answer.result false

/-- With an answer, the steps that are left are asked for. -/
theorem fly_of_answer {answer : Answer σ}
    (hpoll : Oracle.poll s.oracle s.run.halted = some answer) (left : Nat) :
    s.fly false left = (s.concluded answer).steps left false ∧
      s.flyCalls left = (s.answered answer).concludeCalls answer.result ++
        (s.concluded answer).stepsCalls left := by
  cases left with
  | zero =>
    obtain ⟨hsteps, hcalls⟩ := steps_of_nonpos (Int.le_refl 0) (s.concluded answer)
    rw [Int.ofNat_zero, hsteps, hcalls, fly, flyCalls]
    simp [hpoll, concluded, answered]
  | succ left =>
    rw [fly, flyCalls]
    cases hrun : (s.concluded answer).run.isRunning with
    | true =>
      obtain ⟨hsteps, hcalls⟩ := steps_of_running hrun left
      rw [hsteps, hcalls]
      rw [concluded, answered] at hrun
      simp [hpoll, concluded, answered, hrun]
    | false =>
      obtain ⟨hsteps, hcalls⟩ := steps_of_ended hrun (left + 1 : Nat)
      rw [hsteps, hcalls]
      rw [concluded, answered] at hrun
      simp [hpoll, concluded, answered, hrun]

/-! ## The loop -/

/-- Calls are made until the run has ended, and then its statistics are shown. -/
inductive Drives (call : Session σ → List Call → Session σ → Prop) :
    Session σ → List Call → Session σ → Prop
  | ended {s : Session σ} (hend : s.run.isRunning = false) : Drives call s s.finishCalls s.finish
  | again {s s' last : Session σ} {calls calls' : List Call} (hrun : s.run.isRunning = true)
      (hcall : call s calls s') (hrest : Drives call s' calls' last) :
      Drives call s (calls ++ calls') last

/-- One step is a batch of one, as long as the run goes on. -/
theorem runsStep_iff (hrun : s.run.isRunning = true) :
    RunsStep turn s calls last ↔ RunsSteps turn 1 s calls last := by
  obtain ⟨hsteps, hcalls⟩ := steps_of_running hrun 0
  have hstep : s.step false = s.steps 1 false ∧ s.stepCalls = s.stepsCalls 1 := by
    rw [step, stepCalls, hrun]
    exact ⟨hsteps.symm, hcalls.symm⟩
  rw [RunsStep, RunsSteps, hstep.1, hstep.2]

theorem finish_of_ended (hend : s.run.isRunning = false) :
    s.finish = s.dump ∧ s.finishCalls = s.dumpCalls := by
  simp [finish, finishCalls, hend]

end Session

end Cosim

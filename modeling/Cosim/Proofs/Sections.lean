import Cosim.Proofs.RunControl

/-!
# The critical sections of a run

Everything that a call does to a run it does in one critical section: between two of
them nobody sees the run half changed.  This file says once what a critical section can
do, so that a statement about all reachable runs is one case analysis.

* `Run.count`, `Run.close`, `Run.noteTraps` and `Run.noteTrips` are the changes that
  sections are made of: a step is counted, the end is decided, the cores at a trap are
  noted, the cores above the ceiling are noted.
* `Run.Change` lists the sections, with the number of steps that each counts.
* `Session.change_conclude` says that drawing the consequences of an answer is one of
  them, and `Control.Move.change` says so of every move.
-/

namespace Cosim

/-- What is noted about a core at a trap. -/
def TrapEvent.record (event : TrapEvent) (step : UInt64) (code : Int) (core : Nat) :
    TrapRecord where
  step := step
  core := core
  code := code
  pc := event.pc
  instrs := event.instrs
  cycles := event.cycles

/-- What is noted about a core that crossed the ceiling. -/
def Trip.record (trip : Trip) (step : UInt64) : WatchdogRecord where
  step := step
  core := trip.core
  instrs := trip.event.instrs
  cycles := trip.event.cycles
  cpi := trip.cpi

namespace Run

/-- The run with one more step counted. -/
def count (r : Run) : Run :=
  { r with outcome := { r.outcome with steps := r.outcome.steps + 1 } }

/-- What is noted about an end of the run. -/
def endRecord (r : Run) (status : RunStatus) (code : Int) (cause : Cause)
    (failure : Option Error) : TransitionRecord where
  step := r.outcome.steps
  source := r.outcome.status.name
  target := status.name
  trapCode := code
  cause := cause.name
  failure := (failure.map Error.message).getD ""

/-- The run with its end decided, the end noted and everybody told. -/
def close (r : Run) (status : RunStatus) (code : Int) (cause : Cause) (failure : Option Error) :
    Run :=
  { r with
    outcome := { r.outcome with status, trapCode := code, cause := some cause, failure }
    halted := true
    trace := r.trace.map (·.recordTransition (r.endRecord status code cause failure)) }

/-- The run with its end decided by a trap. -/
def closeByTrap (r : Run) (code : Int) : Run :=
  if code = trapGood then r.close .done code .goodTrap none
  else r.close .failed code .trapCode (some (.trapCode code))

/-- What is noted about the cores at a trap. -/
def trapRecords (r : Run) (code : Int) (events : List TrapEvent) : List TrapRecord :=
  events.zipIdx.map fun (event, core) => event.record r.outcome.steps code core

/-- The run with the events of its cores at a trap kept and noted. -/
def noteTraps (r : Run) (code : Int) (events : List TrapEvent) : Run :=
  { r with
    dumped := true
    final := events.toArray
    trace := r.trace.map fun t => { t with traps := t.traps ++ r.trapRecords code events } }

/-- The run with the cores that a check found above the ceiling kept and noted. -/
def noteTrips (r : Run) (sweep : Watchdog.Sweep) : Run :=
  { r with
    watchdog := sweep.watchdog
    final := sweep.trips.foldl (fun final trip => final.set! trip.core trip.event) r.final
    trace := r.trace.map fun t =>
      { t with trips := t.trips ++ sweep.trips.map (·.record r.outcome.steps) } }

/-- What a critical section can do to a run, with the number of steps that it counts.  An
ended run can still show its statistics; only a run that goes on can be changed otherwise. -/
inductive Change (σ : Type) [Oracle σ] (r : Run) : Nat → Run → Prop where
  | rest : Change σ r 0 r
  | shown (final : Array TrapEvent) (hend : r.isRunning = false) (hfresh : r.dumped = false)
      (hsize : final.size = r.final.size) : Change σ r 0 { r with dumped := true, final }
  | aborted (e : Error) (hrun : r.isRunning = true) :
      Change σ r 0 (r.close .failed trapRunning .fatal (some (.fatal none e)))
  | failed (e : Error) (final : Array TrapEvent) (hrun : r.isRunning = true)
      (hsize : final.size = r.final.size) :
      Change σ r 0
        { r.close .failed trapRunning .fatal (some (.fatal (some (r.outcome.steps + 1)) e)) with
          dumped := true, final }
  | mismatched (final : Array TrapEvent) (hrun : r.isRunning = true)
      (hsize : final.size = r.final.size) :
      Change σ r 1
        { r.count.close .failed trapRunning .mismatch (some (.mismatch (r.outcome.steps + 1))) with
          dumped := true, final }
  | trapped (oracle : σ) (events : List TrapEvent) (hrun : r.isRunning = true)
      (hcode : Oracle.trapState oracle ≠ trapRunning) (hlength : events.length = r.cores) :
      Change σ r 1
        ((r.count.noteTraps (Oracle.trapState oracle) events).closeByTrap (Oracle.trapState oracle))
  | passed (hrun : r.isRunning = true) (hoff : r.watchdog.enabled = false) : Change σ r 1 r.count
  | watched (event : Nat → TrapEvent) (hrun : r.isRunning = true) (hon : r.watchdog.enabled = true)
      (hsome : (r.watchdog.check fun core => .ok (event core)).watchdog.allTrapped = false) :
      Change σ r 1 (r.count.noteTrips (r.watchdog.check fun core => .ok (event core)))
  | limited (event : Nat → TrapEvent) (hrun : r.isRunning = true) (hon : r.watchdog.enabled = true)
      (hall : (r.watchdog.check fun core => .ok (event core)).watchdog.allTrapped = true) :
      Change σ r 1
        (close
          { r.count.noteTrips (r.watchdog.check fun core => .ok (event core)) with dumped := true }
          .done trapRunning .instrLimit none)

theorem status_of_isRunning {r : Run} (h : r.isRunning = true) : r.outcome.status = .running := by
  simpa [isRunning] using h

theorem isRunning_close {r : Run} {status : RunStatus} {code : Int} {cause : Cause}
    {failure : Option Error} (hstatus : status ≠ .running) :
    (r.close status code cause failure).isRunning = false := by
  simpa [isRunning, close] using hstatus

end Run

/-! ## Loops that note -/

namespace Session

variable {σ : Type} {s : Session σ}

theorem run_transition (hrun : s.run.isRunning = true) (status : RunStatus) (code : Int)
    (cause : Cause) (failure : Option Error) :
    (s.transition status code cause failure).run = s.run.close status code cause failure := by
  rw [isRunning_iff] at hrun
  unfold transition Run.close Run.endRecord
  simp only [hrun, if_true]
  cases failure <;> rfl

theorem transition_of_ended (hend : s.run.isRunning = false) (status : RunStatus) (code : Int)
    (cause : Cause) (failure : Option Error) : s.transition status code cause failure = s := by
  have hover : s.run.outcome.status ≠ .running := by
    rw [ne_eq, ← isRunning_iff, hend]
    simp
  simp [transition, hover]

theorem oracle_transition (s : Session σ) (status : RunStatus) (code : Int) (cause : Cause)
    (failure : Option Error) : (s.transition status code cause failure).oracle = s.oracle := by
  unfold transition
  dsimp only
  split
  · cases failure <;> rfl
  · rfl

theorem final_transition (s : Session σ) (status : RunStatus) (code : Int) (cause : Cause)
    (failure : Option Error) :
    (s.transition status code cause failure).run.final = s.run.final := by
  unfold transition
  dsimp only
  split
  · cases failure <;> rfl
  · rfl

variable [Oracle σ]

/-- Noting cores at a trap, one after the other, replaces their events and appends their
records.  A display between two of them may change what the oracle says about the next. -/
theorem run_noteTraps (code : Int) (before after : List TrapEvent)
    (hfinal : s.run.final = (before ++ after).toArray) :
    ∃ events : List TrapEvent, events.length = after.length ∧
      ((List.range' before.length after.length).foldl (noteTrap code) s).run =
        { s.run with
          final := (before ++ events).toArray
          trace := s.run.trace.map fun t =>
            { t with
              traps := t.traps ++ (events.zipIdx before.length).map fun (event, core) =>
                event.record s.run.outcome.steps code core } } := by
  induction after generalizing before s with
  | nil =>
    rw [List.append_nil] at hfinal
    exact ⟨[], rfl, by simp [← hfinal]⟩
  | cons old after ih =>
    let event := Oracle.event s.oracle before.length
    have hset : (before ++ old :: after).toArray.set! before.length event =
        ((before ++ [event]) ++ after).toArray := by simp
    have hnoted : (noteTrap code s before.length).run =
        { s.run with
          final := ((before ++ [event]) ++ after).toArray
          trace := s.run.trace.map fun t =>
            { t with
              traps := t.traps ++ [event.record s.run.outcome.steps code before.length] } } := by
      rw [← hset, ← hfinal]
      rfl
    obtain ⟨events, hlength, hrest⟩ := ih (before ++ [event]) (by rw [hnoted])
    refine ⟨event :: events, by simp [hlength], ?_⟩
    rw [List.length_append, List.length_singleton] at hrest
    rw [List.length_cons, List.range'_succ, List.foldl_cons, hrest, hnoted]
    simp [Function.comp_def]

/-- Noting the cores above the ceiling keeps their events and appends their records. -/
theorem run_noteTrips (trips : List Trip) :
    (trips.foldl noteTrip s).run =
      { s.run with
        final := trips.foldl (fun final trip => final.set! trip.core trip.event) s.run.final
        trace := s.run.trace.map fun t =>
          { t with trips := t.trips ++ trips.map (·.record s.run.outcome.steps) } } := by
  induction trips generalizing s with
  | nil => simp
  | cons trip trips ih =>
    have hnoted : (s.noteTrip trip).run =
        { s.run with
          final := s.run.final.set! trip.core trip.event
          trace := s.run.trace.map fun t =>
            { t with trips := t.trips ++ [trip.record s.run.outcome.steps] } } := rfl
    rw [List.foldl_cons, ih, hnoted]
    simp [Function.comp_def]

/-- Showing the statistics keeps one event for each core, if it has not been done. -/
theorem run_dump (s : Session σ) :
    ∃ final : Array TrapEvent, final.size = s.run.final.size ∧
      s.dump.run = { s.run with dumped := true, final } ∧
      (s.run.dumped = true → s.dump = s) := by
  by_cases hdumped : s.run.dumped = true
  · have hsame : s.dump = s := by simp [dump, hdumped]
    exact ⟨s.run.final, rfl, by rw [hsame, ← hdumped], fun _ => hsame⟩
  · let shows := fun (s : Session σ) (core : Nat) =>
      (s.setFinal core (Oracle.event s.oracle core)).present core
    have hloop : ∀ (l : List Nat) (s : Session σ),
        (l.foldl shows s).run = { s.run with final := (l.foldl shows s).run.final } ∧
          (l.foldl shows s).run.final.size = s.run.final.size := by
      intro l
      induction l with
      | nil => exact fun s => ⟨rfl, rfl⟩
      | cons core l ih =>
        intro s
        obtain ⟨hrun, hsize⟩ := ih (shows s core)
        have hone : (shows s core).run =
            { s.run with final := s.run.final.set! core (Oracle.event s.oracle core) } := rfl
        rw [List.foldl_cons]
        refine ⟨?_, by rw [hsize, hone]; simp⟩
        rw [hrun, hone]
    obtain ⟨hrun, hsize⟩ := hloop (List.range s.run.cores)
      { s with run := { s.run with dumped := true } }
    refine ⟨_, hsize, ?_, fun h => absurd h hdumped⟩
    rw [dump, if_neg hdumped]
    exact hrun

/-! ## Every call is a critical section -/

theorem change_dump (hend : s.run.isRunning = false) : s.run.Change σ 0 s.dump.run := by
  obtain ⟨final, hsize, hrun, hsame⟩ := s.run_dump
  cases hdumped : s.run.dumped with
  | true =>
    rw [hsame hdumped]
    exact .rest
  | false =>
    rw [hrun]
    exact .shown final hend hdumped hsize

theorem change_finish (s : Session σ) : s.run.Change σ 0 s.finish.run := by
  unfold finish
  split
  · exact .rest
  · rename_i hend
    exact change_dump (by simpa using hend)

theorem change_abort (s : Session σ) (e : Error) : s.run.Change σ 0 (s.abort e).run := by
  unfold abort
  cases hrun : s.run.isRunning with
  | true =>
    rw [run_transition hrun]
    exact .aborted e hrun
  | false =>
    rw [transition_of_ended hrun]
    exact .rest

/-- A trap notes every core and then ends the run. -/
theorem run_endByTrap (hrun : s.run.isRunning = true) (code : Int) :
    ∃ events : List TrapEvent, events.length = s.run.cores ∧
      (s.endByTrap code).run = (s.run.noteTraps code events).closeByTrap code := by
  obtain ⟨events, hlength, hnoted⟩ :=
    run_noteTraps (s := { s with run := { s.run with dumped := true } }) code []
      s.run.final.toList (by simp)
  rw [List.length_nil, Array.length_toList, ← List.range_eq_range'] at hnoted
  rw [Array.length_toList] at hlength
  refine ⟨events, hlength, ?_⟩
  unfold endByTrap Run.closeByTrap
  dsimp only [Run.cores]
  generalize (List.range s.run.final.size).foldl (noteTrap code)
    { s with run := { s.run with dumped := true } } = t at hnoted ⊢
  have hshape : t.run = s.run.noteTraps code events := hnoted
  have hgoing : t.run.isRunning = true := by
    rw [hshape]
    exact hrun
  split
  · rw [run_transition hgoing, hshape]
  · rw [run_transition hgoing, hshape]

/-- Looking for cores above the ceiling notes them, and ends the run when it is through. -/
theorem run_watch (hrun : s.run.isRunning = true) (hon : s.run.watchdog.enabled = true) :
    let sweep := s.run.watchdog.check fun core => .ok (Oracle.event s.oracle core)
    s.watch.run =
      if sweep.watchdog.allTrapped then
        Run.close { s.run.noteTrips sweep with dumped := true } .done trapRunning .instrLimit none
      else s.run.noteTrips sweep := by
  intro sweep
  have hnoted : (sweep.trips.foldl noteTrip
      { s with run := { s.run with watchdog := sweep.watchdog } }).run = s.run.noteTrips sweep :=
    run_noteTrips sweep.trips
  unfold watch
  rw [if_pos hon]
  dsimp only
  change (if (sweep.trips.foldl noteTrip
      { s with run := { s.run with watchdog := sweep.watchdog } }).run.watchdog.allTrapped then _
    else _ : Session σ).run = _
  generalize sweep.trips.foldl noteTrip
    { s with run := { s.run with watchdog := sweep.watchdog } } = t at hnoted ⊢
  have hwatchdog : t.run.watchdog = sweep.watchdog := by
    rw [hnoted]
    rfl
  by_cases hall : sweep.watchdog.allTrapped = true
  · have hgoing : { t with run := { t.run with dumped := true } }.run.isRunning = true := by
      show t.run.isRunning = true
      rw [hnoted]
      exact hrun
    rw [if_pos (by rw [hwatchdog]; exact hall), if_pos hall, run_transition hgoing, hnoted]
  · rw [if_neg (by rw [hwatchdog]; exact hall), if_neg hall, hnoted]

/-- A failure ends the run and shows its statistics. -/
theorem run_fail (hrun : s.run.isRunning = true) (cause : Cause) (e : Error) :
    ∃ final : Array TrapEvent, final.size = s.run.final.size ∧
      (s.transition .failed trapRunning cause (some e)).dump.run =
        { s.run.close .failed trapRunning cause (some e) with dumped := true, final } := by
  obtain ⟨final, hsize, hdump, -⟩ := (s.transition .failed trapRunning cause (some e)).run_dump
  rw [run_transition hrun] at hsize hdump
  exact ⟨final, hsize, hdump⟩

/-- An answer in time counts its step, and may end the run. -/
theorem change_answer (hrun : s.run.isRunning = true) (differs : Bool) (cancelled : Bool) :
    s.run.Change σ 1 (s.conclude (.ok differs) cancelled).run := by
  let t : Session σ := { s with run := s.run.count }
  have hgoing : t.run.isRunning = true := hrun
  have hcounted : s.conclude (.ok differs) cancelled =
      if differs then
        (t.transition .failed trapRunning .mismatch
          (some (.mismatch (s.run.outcome.steps + 1)))).dump
      else if Oracle.trapState s.oracle ≠ trapRunning then t.endByTrap (Oracle.trapState s.oracle)
      else t.watch := by
    simp only [conclude, hrun, Bool.not_true, Bool.false_eq_true, if_false]
    rfl
  rw [hcounted]
  split
  · obtain ⟨final, hsize, hfail⟩ := run_fail hgoing .mismatch (.mismatch (s.run.outcome.steps + 1))
    rw [hfail]
    exact .mismatched final hrun hsize
  · split
    · rename_i hcode
      obtain ⟨events, hlength, htrap⟩ := run_endByTrap hgoing (Oracle.trapState s.oracle)
      rw [htrap]
      exact .trapped s.oracle events hrun hcode hlength
    · cases hon : s.run.watchdog.enabled with
      | false =>
        have hoff : t.run.watchdog.enabled = false := hon
        rw [watch, if_neg (by simp [hoff])]
        exact .passed hrun hon
      | true =>
        rw [run_watch hgoing hon]
        split
        · rename_i hall
          exact .limited _ hrun hon hall
        · rename_i hsome
          exact .watched _ hrun hon (Bool.not_eq_true _ ▸ hsome)

/-- Drawing the consequences of an answer counts at most one step. -/
theorem change_conclude (s : Session σ) (result : Except Error Bool) (cancelled : Bool) :
    ∃ k ≤ 1, s.run.Change σ k (s.conclude result cancelled).run := by
  cases hrun : s.run.isRunning with
  | false =>
    rw [conclude_of_ended s hrun]
    exact ⟨0, by omega, change_dump hrun⟩
  | true =>
    cases result with
    | ok differs => exact ⟨1, Nat.le_refl 1, change_answer hrun differs cancelled⟩
    | error e =>
      simp only [conclude, hrun, Bool.not_true, Bool.false_eq_true, if_false]
      split
      · exact ⟨0, by omega, .rest⟩
      · obtain ⟨final, hsize, hfail⟩ :=
          run_fail hrun .fatal (.fatal (some (s.run.outcome.steps + 1)) e)
        rw [hfail]
        exact ⟨0, by omega, .failed e final hrun hsize⟩

end Session

namespace Control

variable {σ : Type} [Oracle σ] {c c' : Control σ}

/-- The number of steps that have begun and whose consequences have not been drawn. -/
def underWay : Position → Nat
  | .idle | .entered => 0
  | .flying | .answered _ => 1

/-- Every move is a critical section, and counts no step that has not begun. -/
theorem Move.change (h : Move c c') :
    ∃ k, c.session.run.Change σ k c'.session.run ∧
      k + underWay c'.position + c.calls ≤ underWay c.position + c'.calls := by
  cases h with
  | enter hpos _ => exact ⟨0, .rest, by simp [hpos, underWay]⟩
  | enterLate hpos hend => exact ⟨0, Session.change_dump hend, by simp⟩
  | begin hpos => exact ⟨0, .rest, by simp [hpos, underWay]; omega⟩
  | answer _ hpos _ => exact ⟨0, .rest, by simp [hpos, underWay]⟩
  | conclude cancelled hpos =>
    obtain ⟨k, hle, hchange⟩ := c.session.change_conclude _ cancelled
    refine ⟨k, hchange, ?_⟩
    simp only [hpos, underWay]
    omega
  | finish hpos => exact ⟨0, c.session.change_finish, by simp⟩
  | abort e => exact ⟨0, c.session.change_abort e, by simp⟩
  | work oracle => exact ⟨0, .rest, by simp⟩

/-- What critical sections keep holds of every reachable run. -/
theorem keeps_of_reach {P : Run → Prop}
    (hchange : ∀ (r r' : Run) (k : Nat), P r → r.Change σ k r' → P r') (hreach : Reach c c')
    (h : P c.session.run) : P c'.session.run := by
  induction hreach with
  | refl => exact h
  | tail _ hmove ih =>
    obtain ⟨k, hk, -⟩ := hmove.change
    exact hchange _ _ k ih hk

end Control

end Cosim

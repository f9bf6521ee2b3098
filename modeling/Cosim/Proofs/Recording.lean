import Cosim.Proofs.Calls
import Cosim.Proofs.Twins

/-!
# What an oracle records

The calls of a session are listed beside its steps.  Two kinds of them change the oracle: the
beginning of a step and a display.  An oracle that keeps a record of these finds them in the lists,
all of them and in the same order.

* `Oracle.Recorded σ` behaves like `σ` and records what changes it.
* `Session.Drives.twin` says that the loop goes the same way over a twin of the oracle, with the
  same calls.
* `Session.Makes` says that the record has grown by the calls of a list, and each part of a step
  makes the calls that are listed for it.  `Session.Drives.makes` says so for the loop.
-/

namespace Cosim

/-- The calls that change an oracle.  The others only read it. -/
def Oracle.Call.changes : Oracle.Call → Bool
  | .step _ | .display _ => true
  | .state | .event _ => false

/-- An oracle and the calls that have changed it. -/
structure Oracle.Recorded (σ : Type) where
  oracle : σ
  made : List Oracle.Call := []

instance {σ : Type} [Oracle σ] : Oracle (Oracle.Recorded σ) where
  begin r := { oracle := Oracle.begin r.oracle, made := r.made ++ [.step true] }
  poll r cancelled := (Oracle.poll r.oracle cancelled).map fun answer =>
    { answer with oracle := { r with oracle := answer.oracle } }
  trapState r := Oracle.trapState r.oracle
  event r := Oracle.event r.oracle
  display r core :=
    let shown := Oracle.display r.oracle core
    ({ oracle := shown.1, made := r.made ++ [.display core] }, shown.2)

instance {σ : Type} [Oracle σ] : Oracle.Twin (Oracle.Recorded σ) σ where
  own r := r.oracle
  replace r inner := { r with oracle := inner }
  own_replace _ _ := rfl
  own_begin _ := rfl
  poll_eq _ _ := Option.map_map _ _ _
  trapState_own _ := rfl
  event_own _ _ := rfl
  own_display _ _ := rfl

/-- What happens to an oracle happens to its twin, and nothing else does. -/
def Oracle.Twin.turn {τ σ : Type} [Oracle τ] [Oracle σ] [Oracle.Twin τ σ] (turn : σ → σ → Prop)
    (o o' : τ) : Prop :=
  ∃ inner, turn (own o) inner ∧ o' = replace o inner

namespace Session

open Oracle (Call Recorded Twin)

/-! ## A twin is asked the same -/

section Twins

variable {τ σ : Type} [Oracle τ] [Oracle σ] [Twin τ σ] {m : Session τ} {s : Session σ}

namespace Mirrors

theorem showCalls_eq (h : m.Mirrors s) : m.showCalls = s.showCalls := by
  rw [showCalls, showCalls, h.run_eq]

theorem dumpCalls_eq (h : m.Mirrors s) : m.dumpCalls = s.dumpCalls := by
  rw [dumpCalls, dumpCalls, h.run_eq, h.showCalls_eq]

theorem watchCalls_eq (h : m.Mirrors s) : m.watchCalls = s.watchCalls := by
  simp only [watchCalls, h.run_eq, h.event_eq]

theorem concludeCalls_eq (h : m.Mirrors s) (result : Except Error Bool) :
    m.concludeCalls result = s.concludeCalls result := by
  unfold concludeCalls
  rw [h.run_eq, h.dumpCalls_eq, h.showCalls_eq, h.watchCalls_eq, h.trapState_eq]

/-- The flights leave as many steps. -/
def Flights (flight : Session τ × Option Nat) (flight' : Session σ × Option Nat) : Prop :=
  flight.1.Mirrors flight'.1 ∧ flight.2 = flight'.2

theorem fly_of_steps {left : Nat}
    (hsteps : ∀ (m : Session τ) (s : Session σ), m.Mirrors s →
      Flights (m.steps left false) (s.steps left false) ∧ m.stepsCalls left = s.stepsCalls left)
    (h : m.Mirrors s) :
    Flights (m.fly false left) (s.fly false left) ∧ m.flyCalls left = s.flyCalls left := by
  cases hpoll : Oracle.poll s.oracle s.run.halted with
  | none =>
    have hpoll' := h.poll_eq_none hpoll
    rw [← h.run_eq] at hpoll'
    obtain ⟨hfly, hcalls⟩ := fly_of_wait hpoll left
    obtain ⟨hfly', hcalls'⟩ := fly_of_wait hpoll' left
    rw [hfly, hcalls, hfly', hcalls']
    exact ⟨⟨h, rfl⟩, rfl⟩
  | some answer =>
    obtain ⟨twin, hpoll', hown, hresult⟩ := h.poll_eq_some hpoll
    rw [← h.run_eq] at hpoll'
    have hanswered : (m.answered twin).Mirrors (s.answered answer) := ⟨h.run_eq, hown⟩
    obtain ⟨hfly, hcalls⟩ := fly_of_answer hpoll left
    obtain ⟨hfly', hcalls'⟩ := fly_of_answer hpoll' left
    obtain ⟨hflights, hsame⟩ := hsteps _ _ (hanswered.conclude answer.result false)
    rw [hfly, hcalls, hfly', hcalls', concluded, concluded, hresult,
      hanswered.concludeCalls_eq, hsame]
    exact ⟨hflights, rfl⟩

/-- The steps that are left after an answer are fewer. -/
theorem steps (n : Nat) (h : m.Mirrors s) :
    Flights (m.steps n false) (s.steps n false) ∧ m.stepsCalls n = s.stepsCalls n := by
  induction n generalizing m s with
  | zero =>
    obtain ⟨hsteps, hcalls⟩ := steps_of_nonpos (Int.le_refl 0) s
    obtain ⟨hsteps', hcalls'⟩ := steps_of_nonpos (Int.le_refl 0) m
    rw [Int.ofNat_zero, hsteps, hcalls, hsteps', hcalls']
    exact ⟨⟨h, rfl⟩, rfl⟩
  | succ n ih =>
    cases hrun : s.run.isRunning with
    | true =>
      obtain ⟨hsteps, hcalls⟩ := steps_of_running hrun n
      obtain ⟨hsteps', hcalls'⟩ := steps_of_running (h.run_eq ▸ hrun) n
      obtain ⟨hflights, hsame⟩ := fly_of_steps (fun _ _ => ih) h.launch
      rw [hsteps, hcalls, hsteps', hcalls', hsame]
      exact ⟨hflights, rfl⟩
    | false =>
      obtain ⟨hsteps, hcalls⟩ := steps_of_ended hrun (n + 1 : Nat)
      obtain ⟨hsteps', hcalls'⟩ := steps_of_ended (h.run_eq ▸ hrun) (n + 1 : Nat)
      rw [hsteps, hcalls, hsteps', hcalls']
      exact ⟨⟨h, rfl⟩, rfl⟩

theorem fly (left : Nat) (h : m.Mirrors s) :
    Flights (m.fly false left) (s.fly false left) ∧ m.flyCalls left = s.flyCalls left :=
  fly_of_steps (fun _ _ => steps left) h

end Mirrors

variable {turn : σ → σ → Prop} {last : Session σ} {calls : List Call}

/-- The twin comes to rest after the same waits. -/
theorem Lands.twin {flight : Session σ × Option Nat} {flight' : Session τ × Option Nat}
    (hflights : Mirrors.Flights flight' flight) (h : Lands turn flight calls last) :
    ∃ twin, Lands (Twin.turn turn) flight' calls twin ∧ twin.Mirrors last := by
  induction h generalizing flight' with
  | rested s =>
    obtain ⟨m, left⟩ := flight'
    obtain ⟨hmirrors, rfl⟩ : m.Mirrors s ∧ left = none := hflights
    exact ⟨m, .rested m, hmirrors⟩
  | @waited s last left oracle calls hturn hrest ih =>
    obtain ⟨m, left'⟩ := flight'
    obtain ⟨hmirrors, rfl⟩ : m.Mirrors s ∧ left' = some left := hflights
    obtain ⟨hfly, hcalls⟩ := (hmirrors.replace oracle).fly left
    obtain ⟨twin, hlands, htwin⟩ := ih hfly
    have hturn' : Twin.turn turn m.oracle (Twin.replace m.oracle oracle) :=
      ⟨oracle, hmirrors.oracle_eq ▸ hturn, rfl⟩
    exact ⟨twin, hcalls ▸ .waited hturn' hlands, htwin⟩

/-- The loop goes the same way over a twin. -/
theorem Drives.twin (h : Drives (RunsStep turn) s calls last) (hmirrors : m.Mirrors s) :
    ∃ twin, Drives (RunsStep (Twin.turn turn)) m calls twin ∧ twin.Mirrors last := by
  induction h generalizing m with
  | @ended s hend =>
    have hend' : m.run.isRunning = false := hmirrors.run_eq ▸ hend
    have hcalls : m.finishCalls = s.finishCalls := by
      rw [(finish_of_ended hend).2, (finish_of_ended hend').2, hmirrors.dumpCalls_eq]
    exact ⟨m.finish, hcalls ▸ .ended hend', hmirrors.finish⟩
  | @again s s' last calls calls' hrun hcall hrest ih =>
    have hrun' : m.run.isRunning = true := hmirrors.run_eq ▸ hrun
    obtain ⟨rest, rfl, hlands⟩ := (runsStep_iff hrun).mp hcall
    obtain ⟨hflights, hcalls⟩ := hmirrors.steps 1
    obtain ⟨mid, hlands', hmid⟩ := hlands.twin hflights
    obtain ⟨twin, hdrives, htwin⟩ := ih hmid
    have hcall' : RunsSteps (Twin.turn turn) 1 m (s.stepsCalls 1 ++ rest) mid :=
      ⟨rest, congrArg (· ++ rest) hcalls.symm, hlands'⟩
    exact ⟨twin, .again hrun' ((runsStep_iff hrun').mpr hcall') hdrives, htwin⟩

end Twins

/-! ## The calls are recorded -/

variable {σ : Type}

/-- The session over the recording oracle, with an empty record. -/
def recorded (s : Session σ) : Session (Recorded σ) :=
  { run := s.run, oracle := { oracle := s.oracle }, journal := s.journal }

/-- Between the two sessions the oracle was changed by these calls. -/
def Makes (s : Session (Recorded σ)) (calls : List Call) (s' : Session (Recorded σ)) : Prop :=
  s'.oracle.made = s.oracle.made ++ calls.filter Call.changes

theorem makes_nil {s s' : Session (Recorded σ)} (hsame : s'.oracle.made = s.oracle.made) :
    Makes s [] s' := by
  rw [Makes, hsame, List.filter_nil, List.append_nil]

theorem Makes.trans {s s' s'' : Session (Recorded σ)} {calls calls' : List Call}
    (h : Makes s calls s') (h' : Makes s' calls' s'') : Makes s (calls ++ calls') s'' := by
  rw [Makes, h', h, List.append_assoc, List.filter_append]

/-- What does not touch the oracle adds nothing. -/
theorem Makes.of_oracle_eq {s s' s'' : Session (Recorded σ)} {calls : List Call}
    (h : Makes s calls s') (hsame : s''.oracle = s'.oracle) : Makes s calls s'' := by
  rw [Makes, hsame]
  exact h

theorem makes_foldl {α : Type} (f : Session (Recorded σ) → α → Session (Recorded σ))
    (callsOf : α → List Call) (hf : ∀ s a, Makes s (callsOf a) (f s a)) (as : List α)
    (s : Session (Recorded σ)) : Makes s (as.flatMap callsOf) (as.foldl f s) := by
  induction as generalizing s with
  | nil => exact makes_nil rfl
  | cons a as ih => exact (hf s a).trans (ih (f s a))

theorem dumpCalls_transition (s : Session σ) (status : RunStatus) (code : Int) (cause : Cause)
    (failure : Option Error) :
    (s.transition status code cause failure).dumpCalls = s.dumpCalls := by
  unfold transition
  dsimp only
  split
  · cases failure <;> rfl
  · rfl

variable [Oracle σ]

theorem makes_present {s s' : Session (Recorded σ)} (hsame : s'.oracle = s.oracle) (core : Nat) :
    Makes s [.display core] (s'.present core) := by
  unfold present Makes
  rw [hsame]
  rfl

theorem makes_event_present {s s' : Session (Recorded σ)} (hsame : s'.oracle = s.oracle)
    (core : Nat) : Makes s [.event core, .display core] (s'.present core) :=
  makes_present hsame core

theorem makes_dump (s : Session (Recorded σ)) : Makes s s.dumpCalls s.dump := by
  unfold dump dumpCalls
  split
  · exact makes_nil rfl
  · exact makes_foldl (fun s core => (s.setFinal core (Oracle.event s.oracle core)).present core)
      _ (fun s core => makes_event_present rfl core) (List.range s.run.cores)
      { s with run := { s.run with dumped := true } }

theorem makes_transition_dump (s : Session (Recorded σ)) (status : RunStatus) (code : Int)
    (cause : Cause) (failure : Option Error) :
    Makes s s.dumpCalls (s.transition status code cause failure).dump := by
  have hdump := makes_dump (s.transition status code cause failure)
  rw [dumpCalls_transition] at hdump
  rw [Makes, hdump, oracle_transition]

theorem makes_endByTrap (s : Session (Recorded σ)) (code : Int) :
    Makes s s.showCalls (s.endByTrap code) := by
  have hnoted := makes_foldl (noteTrap code) (fun core => [.event core, .display core])
    (fun _ core => makes_event_present rfl core) (List.range s.run.cores)
    { s with run := { s.run with dumped := true } }
  unfold endByTrap
  dsimp only
  split
  · exact hnoted.of_oracle_eq (oracle_transition _ _ _ _ _)
  · exact hnoted.of_oracle_eq (oracle_transition _ _ _ _ _)

theorem makes_watch (s : Session (Recorded σ)) : Makes s s.watchCalls s.watch := by
  unfold watch watchCalls
  dsimp only
  split
  · generalize s.run.watchdog.check _ = sweep
    have hasked : Makes s (sweep.asked.map .event)
        { s with run := { s.run with watchdog := sweep.watchdog } } := by
      rw [Makes]
      simp [Call.changes]
    have hshown := hasked.trans (makes_foldl noteTrip (fun trip => [.display trip.core])
      (fun _ trip => makes_present rfl trip.core) sweep.trips _)
    rw [← List.map_eq_flatMap] at hshown
    split
    · exact hshown.of_oracle_eq (oracle_transition _ _ _ _ _)
    · exact hshown
  · exact makes_nil rfl

/-- Whatever the answer is, its consequences are drawn with the calls that are listed. -/
theorem makes_conclude (s : Session (Recorded σ)) (result : Except Error Bool) :
    Makes s (s.concludeCalls result) (s.conclude result false) := by
  unfold conclude concludeCalls
  split
  · exact s.makes_dump
  · cases result with
    | error e => exact s.makes_transition_dump _ _ _ _
    | ok differs =>
      dsimp only
      split
      · exact makes_transition_dump _ _ _ _ _
      · split
        · exact makes_endByTrap _ _
        · exact makes_watch _

theorem poll_recorded (r : Recorded σ) (halted : Bool) {answer : Answer (Recorded σ)}
    (hpoll : Oracle.poll r halted = some answer) : answer.oracle.made = r.made := by
  obtain ⟨inner, -, rfl⟩ := Option.map_eq_some_iff.mp hpoll
  rfl

/-- The steps after the one in flight are fewer, and their calls come after its own. -/
theorem makes_fly_of_steps {left : Nat}
    (hsteps : ∀ s : Session (Recorded σ), Makes s (s.stepsCalls left) (s.steps left false).1)
    (s : Session (Recorded σ)) : Makes s (s.flyCalls left) (s.fly false left).1 := by
  cases hpoll : Oracle.poll s.oracle s.run.halted with
  | none =>
    obtain ⟨hfly, hcalls⟩ := fly_of_wait hpoll left
    rw [hfly, hcalls]
    exact makes_nil rfl
  | some answer =>
    obtain ⟨hfly, hcalls⟩ := fly_of_answer hpoll left
    rw [hfly, hcalls]
    have hanswered : Makes s [] (s.answered answer) := makes_nil (poll_recorded _ _ hpoll)
    exact (hanswered.trans (makes_conclude _ _)).trans (hsteps _)

theorem makes_steps (n : Nat) (s : Session (Recorded σ)) :
    Makes s (s.stepsCalls n) (s.steps n false).1 := by
  induction n generalizing s with
  | zero =>
    obtain ⟨hsteps, hcalls⟩ := steps_of_nonpos (Int.le_refl 0) s
    rw [Int.ofNat_zero, hsteps, hcalls]
    exact makes_nil rfl
  | succ n ih =>
    cases hrun : s.run.isRunning with
    | true =>
      obtain ⟨hsteps, hcalls⟩ := steps_of_running hrun n
      rw [hsteps, hcalls]
      have hlaunch : Makes s [.step true] s.launch := rfl
      exact hlaunch.trans (makes_fly_of_steps ih s.launch)
    | false =>
      obtain ⟨hsteps, hcalls⟩ := steps_of_ended hrun (n + 1 : Nat)
      rw [hsteps, hcalls]
      exact makes_nil rfl

variable {turn : σ → σ → Prop} {s last : Session (Recorded σ)} {calls : List Call}

theorem Lands.makes {flight : Session (Recorded σ) × Option Nat}
    (h : Lands (Twin.turn turn) flight calls last) : Makes flight.1 calls last := by
  induction h with
  | rested s => exact makes_nil rfl
  | @waited s last left oracle calls hfirst hrest ih =>
    obtain ⟨inner, -, rfl⟩ := hfirst
    have hwoken : Makes s [] { s with oracle := Twin.replace s.oracle inner } := makes_nil rfl
    exact (hwoken.trans (makes_fly_of_steps (makes_steps left) _)).trans ih

/-- The recording oracle has recorded what the loop asked of it. -/
theorem Drives.makes (h : Drives (RunsStep (Twin.turn turn)) s calls last) :
    Makes s calls last := by
  induction h with
  | @ended s hend =>
    obtain ⟨hfinish, hcalls⟩ := finish_of_ended hend
    rw [hfinish, hcalls]
    exact s.makes_dump
  | @again s s' last calls calls' hrun hcall hrest ih =>
    obtain ⟨rest, rfl, hlands⟩ := (runsStep_iff hrun).mp hcall
    exact ((makes_steps 1 s).trans hlands.makes).trans ih

end Session

end Cosim

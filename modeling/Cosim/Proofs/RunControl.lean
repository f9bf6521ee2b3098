import Cosim.Script
import Cosim.Stepper
import Mathlib.Logic.Relation

/-!
# How a run ends

Steps, aborts and shows of statistics compete for the end of a run.  A step
looks at the status, leaves the oracle to work, and only then draws its
consequences; an abort can come at any point between.

* `Session.decided` is what the end of a run freezes: the outcome, the cores
  above the ceiling, the signal that the run has ended, and the changes of
  status in the trace.
* `Session.Evolves` says what any call may do to it: nothing once the run has
  ended; before that, count steps or end the run, once.
* `Control` is a session with the one step that may be under way, and
  `Control.Move` is one thing that can happen to it.
* `Control.ends_once` is the main statement.
-/

namespace Cosim

/-- A run that could be made has its watchdog and a blank event for each core. -/
theorem Run.create_eq_ok {limit : UInt64} {cores : Int} {trace : Option Trace} {r : Run}
    (hcreate : create limit cores trace = .ok r) :
    ∃ w, Watchdog.create limit cores = .ok w ∧
      r = { watchdog := w, trace, final := Array.replicate cores.toNat {} } := by
  unfold create at hcreate
  cases hw : Watchdog.create limit cores with
  | error fault => simp [hw, bind, Except.bind] at hcreate
  | ok w =>
    cases hroom : Fault.checkAllocation cores eventWidth with
    | error fault => simp [hw, hroom, bind, Except.bind] at hcreate
    | ok _ =>
      simp only [hw, hroom, bind, Except.bind, pure, Except.pure, Except.ok.injEq] at hcreate
      exact ⟨w, rfl, hcreate.symm⟩

namespace Session

variable {σ : Type} {s s' s'' : Session σ}

/-- What the end of a run freezes. -/
def decided (s : Session σ) :
    Outcome × Watchdog × Bool × Option (List TransitionRecord) :=
  (s.run.outcome, s.run.watchdog, s.run.halted, s.run.trace.map Trace.transitions)

theorem isRunning_iff : s.run.isRunning = true ↔ s.run.outcome.status = .running := by
  simp [Run.isRunning]

/-! ## What shows and notes leave alone -/

@[simp] theorem decided_log (s : Session σ) (entries : Journal) :
    (s.log entries).decided = s.decided := rfl

@[simp] theorem decided_setFinal (s : Session σ) (core : Nat) (event : TrapEvent) :
    (s.setFinal core event).decided = s.decided := rfl

/-- Noting anything but a change of status decides nothing. -/
theorem decided_traced (s : Session σ) {f : Trace → Trace}
    (hf : ∀ t, (f t).transitions = t.transitions) : (s.traced f).decided = s.decided := by
  simp only [decided, traced, Option.map_map]
  congr 4
  funext t
  exact hf t

theorem traced_recordTransition (s : Session σ) (r : TransitionRecord) :
    (s.traced (·.recordTransition r)).run.trace.map Trace.transitions =
      s.run.trace.map fun t => t.transitions ++ [r] := by
  simp [traced, Trace.recordTransition, Function.comp_def]

/-- What no round of a loop changes, the loop does not change. -/
theorem foldl_keeps {α γ : Type} (view : Session σ → γ) {f : Session σ → α → Session σ}
    (hf : ∀ s a, view (f s a) = view s) (l : List α) (s : Session σ) :
    view (l.foldl f s) = view s := by
  induction l generalizing s with
  | nil => rfl
  | cons a l ih => rw [List.foldl_cons, ih, hf]

/-- Showing the statistics asks an oracle for nothing but events and displays. -/
theorem dump_congr (one other : Oracle σ) (hevent : one.event = other.event)
    (hdisplay : one.display = other.display) (s : Session σ) :
    @dump σ one s = @dump σ other s := by
  simp only [dump, present, hevent, hdisplay]

section Oracle

variable [Oracle σ]

@[simp] theorem decided_present (s : Session σ) (core : Nat) :
    (s.present core).decided = s.decided := rfl

/-- Showing the statistics decides nothing. -/
theorem decided_dump (s : Session σ) : s.dump.decided = s.decided := by
  unfold dump
  split
  · rfl
  · rw [foldl_keeps decided fun s core => by simp]
    rfl

/-- Showing the statistics notes nothing in the trace. -/
theorem trace_dump (s : Session σ) : s.dump.run.trace = s.run.trace := by
  unfold dump
  split
  · rfl
  · refine foldl_keeps (fun s => s.run.trace) ?_ _ _
    intro s core
    rfl

theorem decided_noteTrap (code : Int) (s : Session σ) (core : Nat) :
    (noteTrap code s core).decided = s.decided := by
  unfold noteTrap
  rw [decided_present]
  exact decided_traced _ fun _ => rfl

theorem decided_noteTrip (s : Session σ) (trip : Trip) :
    (s.noteTrip trip).decided = s.decided := by
  unfold noteTrip
  rw [decided_present]
  exact decided_traced _ fun _ => rfl

end Oracle

/-! ## What a call can do to a run -/

/-- The run has ended, by one change of status more. -/
structure Ends (s s' : Session σ) : Prop where
  terminal : s'.run.outcome.status = .done ∨ s'.run.outcome.status = .failed
  halted : s'.run.halted = true
  recorded : ∃ r, s'.run.trace.map Trace.transitions =
    s.run.trace.map fun t => t.transitions ++ [r]

/-- The run goes on, perhaps with another number of steps. -/
structure GoesOn (s s' : Session σ) : Prop where
  outcome_eq : s'.run.outcome = { s.run.outcome with steps := s'.run.outcome.steps }
  halted : s'.run.halted = s.run.halted
  recorded : s'.run.trace.map Trace.transitions = s.run.trace.map Trace.transitions

/-- What a call can do: nothing that counts once the run has ended; before that
the run goes on or ends. -/
structure Evolves (s s' : Session σ) : Prop where
  frozen : s.run.isRunning = false → s'.decided = s.decided
  running : s.run.isRunning = true → GoesOn s s' ∨ Ends s s'

theorem GoesOn.isRunning_eq (h : GoesOn s s') : s'.run.isRunning = s.run.isRunning := by
  unfold Run.isRunning
  rw [h.outcome_eq]

theorem Ends.isRunning_eq (h : Ends s s') : s'.run.isRunning = false := by
  unfold Run.isRunning
  rcases h.terminal with hs | hs <;> rw [hs] <;> rfl

theorem goesOn_of_decided (h : s'.decided = s.decided) : GoesOn s s' := by
  simp only [decided, Prod.mk.injEq] at h
  obtain ⟨houtcome, -, hhalted, hrecorded⟩ := h
  exact ⟨by rw [houtcome], hhalted, hrecorded⟩

theorem evolves_of_decided (h : s'.decided = s.decided) : Evolves s s' :=
  ⟨fun _ => h, fun _ => .inl (goesOn_of_decided h)⟩

theorem evolves_of_goesOn (hrun : s.run.isRunning = true) (h : GoesOn s s') : Evolves s s' :=
  ⟨fun hend => by simp [hrun] at hend, fun _ => .inl h⟩

theorem GoesOn.trans (h : GoesOn s s') (h' : GoesOn s' s'') : GoesOn s s'' where
  outcome_eq := by rw [h'.outcome_eq, h.outcome_eq]
  halted := h'.halted.trans h.halted
  recorded := h'.recorded.trans h.recorded

theorem Evolves.trans (h : Evolves s s') (h' : Evolves s' s'') : Evolves s s'' where
  frozen := by
    intro hend
    have hsame := h.frozen hend
    rw [h'.frozen ?_, hsame]
    rwa [(goesOn_of_decided hsame).isRunning_eq]
  running := by
    intro hrun
    rcases h.running hrun with hon | hends
    · rcases h'.running (hon.isRunning_eq.trans hrun) with hon' | hends'
      · exact .inl (hon.trans hon')
      · obtain ⟨r, hr⟩ := hends'.recorded
        refine .inr ⟨hends'.terminal, hends'.halted, r, ?_⟩
        have hmap := congrArg (Option.map fun ts => ts ++ [r]) hon.recorded
        simp only [Option.map_map, Function.comp_def] at hmap
        exact hr.trans hmap
    · have hsame := h'.frozen hends.isRunning_eq
      simp only [decided, Prod.mk.injEq] at hsame
      obtain ⟨houtcome, -, hhalted, hrecorded⟩ := hsame
      obtain ⟨r, hr⟩ := hends.recorded
      exact .inr ⟨houtcome ▸ hends.terminal, hhalted ▸ hends.halted, r, hrecorded.trans hr⟩

/-! ## The calls -/

/-- A change of status to an end ends the run, unless it has ended already. -/
theorem evolves_transition (s : Session σ) {status : RunStatus}
    (hstatus : status = .done ∨ status = .failed) (code : Int) (cause : Cause)
    (failure : Option Error) : Evolves s (s.transition status code cause failure) := by
  by_cases hrun : s.run.outcome.status = .running
  · refine ⟨fun hend => ?_, fun _ => .inr ?_⟩
    · simp [isRunning_iff.mpr hrun] at hend
    · unfold transition
      simp only [hrun, if_true]
      cases failure <;> exact ⟨hstatus, rfl, _, traced_recordTransition _ _⟩
  · rw [show s.transition status code cause failure = s by simp [transition, hrun]]
    exact evolves_of_decided rfl

theorem evolves_abort (s : Session σ) (e : Error) : Evolves s (s.abort e) :=
  evolves_transition s (.inr rfl) _ _ _

section Oracle

variable [Oracle σ]

theorem evolves_dump (s : Session σ) : Evolves s s.dump :=
  evolves_of_decided s.decided_dump

theorem evolves_finish (s : Session σ) : Evolves s s.finish := by
  unfold finish
  split
  · exact evolves_of_decided rfl
  · exact s.evolves_dump

theorem evolves_endByTrap (s : Session σ) (code : Int) : Evolves s (s.endByTrap code) := by
  unfold endByTrap
  have hnoted : Evolves s ((List.range s.run.cores).foldl (noteTrap code)
      { s with run := { s.run with dumped := true } }) :=
    evolves_of_decided (by rw [foldl_keeps decided (decided_noteTrap code)]; rfl)
  dsimp only
  split
  · exact hnoted.trans (evolves_transition _ (.inl rfl) _ _ _)
  · exact hnoted.trans (evolves_transition _ (.inr rfl) _ _ _)

/-- Looking for cores above the ceiling touches the watchdog, which only a run
that goes on may do. -/
theorem evolves_watch (s : Session σ) (hrun : s.run.isRunning = true) : Evolves s s.watch := by
  unfold watch
  split
  · dsimp only
    generalize s.run.watchdog.check _ = sweep
    have hswept : Evolves s { s with run := { s.run with watchdog := sweep.watchdog } } :=
      evolves_of_goesOn hrun ⟨rfl, rfl, rfl⟩
    have hnoted := hswept.trans (evolves_of_decided
      (foldl_keeps decided decided_noteTrip sweep.trips _))
    split
    · refine hnoted.trans (Evolves.trans ?_ (evolves_transition _ (.inl rfl) _ _ _))
      exact evolves_of_decided rfl
    · exact hnoted
  · exact evolves_of_decided rfl

theorem evolves_conclude (s : Session σ) (result : Except Error Bool) (cancelled : Bool) :
    Evolves s (s.conclude result cancelled) := by
  unfold conclude
  split
  · exact s.evolves_dump
  rename_i hrun
  rw [Bool.not_eq_true', Bool.not_eq_false] at hrun
  cases result with
  | error e =>
    dsimp only
    split
    · exact evolves_of_decided rfl
    · exact (evolves_transition _ (.inr rfl) _ _ _).trans (evolves_dump _)
  | ok differs =>
    dsimp only
    have hcounted : Evolves s { s with run := { s.run with outcome :=
        { s.run.outcome with steps := s.run.outcome.steps + 1 } } } :=
      evolves_of_goesOn hrun ⟨rfl, rfl, rfl⟩
    refine hcounted.trans ?_
    split
    · exact (evolves_transition _ (.inr rfl) _ _ _).trans (evolves_dump _)
    · split
      · exact evolves_endByTrap _ _
      · exact evolves_watch _ hrun

/-- An answer that comes after the end is dropped, whatever it is. -/
theorem conclude_of_ended (s : Session σ) (hend : s.run.isRunning = false)
    (result : Except Error Bool) (cancelled : Bool) : s.conclude result cancelled = s.dump := by
  simp [conclude, hend]

theorem step_of_ended (s : Session σ) (hend : s.run.isRunning = false) (cancelled : Bool) :
    s.step cancelled = (s.dump, none) := by
  simp [step, hend]

end Oracle

end Session

/-! ## What holds at all times -/

/-- Status, outcome, signal and trace tell the same story. -/
structure Session.Coherent {σ : Type} (s : Session σ) : Prop where
  halted_eq : s.run.halted = !s.run.isRunning
  undecided : s.run.isRunning = true → s.run.outcome = { steps := s.run.outcome.steps }
  terminal : s.run.isRunning = false →
    s.run.outcome.status = .done ∨ s.run.outcome.status = .failed
  recorded : ∀ ts, s.run.trace.map Trace.transitions = some ts →
    ts.length = if s.run.isRunning then 0 else 1

namespace Session

variable {σ : Type} {s s' : Session σ}

theorem Coherent.evolve (h : s.Coherent) (hstep : Evolves s s') : s'.Coherent := by
  cases hrun : s.run.isRunning with
  | false =>
    have hsame := hstep.frozen hrun
    simp only [decided, Prod.mk.injEq] at hsame
    obtain ⟨houtcome, -, hhalted, hrecorded⟩ := hsame
    have hstatus : s'.run.isRunning = s.run.isRunning := by simp only [Run.isRunning, houtcome]
    refine ⟨?_, ?_, ?_, ?_⟩
    · rw [hhalted, hstatus, h.halted_eq]
    · rw [houtcome, hstatus]
      exact h.undecided
    · rw [houtcome, hstatus]
      exact h.terminal
    · rw [hrecorded, hstatus]
      exact h.recorded
  | true =>
    rcases hstep.running hrun with hon | hends
    · refine ⟨?_, fun _ => ?_, ?_, ?_⟩
      · rw [hon.halted, hon.isRunning_eq, h.halted_eq]
      · rw [hon.outcome_eq, h.undecided hrun]
      · rw [hon.isRunning_eq, hrun]
        exact fun hend => by cases hend
      · rw [hon.recorded, hon.isRunning_eq]
        exact h.recorded
    · have hend := hends.isRunning_eq
      refine ⟨?_, ?_, fun _ => hends.terminal, ?_⟩
      · rw [hends.halted, hend]
        rfl
      · rw [hend]
        exact fun hrun' => by cases hrun'
      · obtain ⟨r, hr⟩ := hends.recorded
        intro ts hts
        rw [hr] at hts
        obtain ⟨t, ht, rfl⟩ := Option.map_eq_some_iff.mp hts
        have hnone := h.recorded t.transitions (by rw [ht]; rfl)
        rw [hrun, if_pos rfl] at hnone
        simp [hend, hnone]

/-- A run begins with nothing decided. -/
theorem coherent_create {limit : UInt64} {cores : Int} {level : String} {run : Run} (oracle : σ)
    (hrun : Run.create limit cores (Trace.create level) = .ok run) :
    Coherent { run, oracle } := by
  obtain ⟨watchdog, -, rfl⟩ := Run.create_eq_ok hrun
  refine ⟨rfl, fun _ => rfl, fun hend => ?_, fun ts hts => ?_⟩
  · cases hend
  · dsimp only at hts
    unfold Trace.create at hts
    split at hts
    · cases hts
    · cases hts
      rfl

end Session

/-! ## Everything that can happen to a session -/

/-- Where the step under way stands.  One step at a time is under way. -/
inductive Position where
  /-- There is none. -/
  | idle
  /-- It has found the run running. -/
  | entered
  /-- It waits for the oracle. -/
  | flying
  /-- It has the answer and has drawn no consequences yet. -/
  | answered (result : Except Error Bool)

/-- A session and the step under way. -/
structure Control (σ : Type) where
  session : Session σ
  position : Position := .idle
  /-- The number of steps that the oracle has begun. -/
  calls : Nat := 0

namespace Control

variable {σ : Type} [own : Oracle σ] {c c' : Control σ}

/-- One thing that can happen.  Callers may give up at any moment, and between
two moves the oracle may change by its own work. -/
inductive Move : Control σ → Control σ → Prop where
  | enter {c : Control σ} (hpos : c.position = .idle) (hrun : c.session.run.isRunning = true) :
      Move c { c with position := .entered }
  | enterLate {c : Control σ} (hpos : c.position = .idle) (hend : c.session.run.isRunning = false) :
      Move c { c with session := c.session.dump }
  | begin {c : Control σ} (hpos : c.position = .entered) :
      Move c { session := c.session.launch, position := .flying, calls := c.calls + 1 }
  | answer {c : Control σ} {given : Answer σ} (cancelled : Bool) (hpos : c.position = .flying)
      (hpoll : Oracle.poll c.session.oracle (cancelled || c.session.run.halted) = some given) :
      Move c
        { c with
          session := { c.session with oracle := given.oracle }.log given.notes
          position := .answered given.result }
  | conclude {c : Control σ} {result : Except Error Bool} (cancelled : Bool)
      (hpos : c.position = .answered result) :
      Move c { c with session := c.session.conclude result cancelled, position := .idle }
  | finish {c : Control σ} (hpos : c.position = .idle) :
      Move c { c with session := c.session.finish }
  | abort {c : Control σ} (e : Error) : Move c { c with session := c.session.abort e }
  | work {c : Control σ} (oracle : σ) : Move c { c with session := { c.session with oracle } }

/-- Any number of moves, in any order. -/
abbrev Reach : Control σ → Control σ → Prop := Relation.ReflTransGen Move

/-- Every move does to the session what a call may do. -/
theorem Move.evolves (h : Move c c') : c.session.Evolves c'.session := by
  cases h with
  | enter => exact Session.evolves_of_decided rfl
  | enterLate => exact Session.evolves_dump _
  | begin => exact Session.evolves_of_decided rfl
  | answer => exact Session.evolves_of_decided rfl
  | conclude cancelled => exact Session.evolves_conclude _ _ _
  | finish => exact Session.evolves_finish _
  | abort e => exact Session.evolves_abort _ e
  | work oracle => exact Session.evolves_of_decided rfl

theorem evolves_of_reach (h : Reach c c') : c.session.Evolves c'.session := by
  induction h with
  | refl => exact Session.evolves_of_decided rfl
  | tail _ hmove ih => exact ih.trans hmove.evolves

/-- The number of steps that the oracle can still be asked for after the end:
one, if a step had already looked at the status. -/
def outstanding : Position → Nat
  | .entered => 1
  | _ => 0

/-- After the end no step gets past its look at the status. -/
theorem Move.calls_eq (h : Move c c') (hend : c.session.run.isRunning = false) :
    c'.calls + outstanding c'.position = c.calls + outstanding c.position := by
  cases h with
  | enter _ hrun => simp [hend] at hrun
  | begin hpos => simp [outstanding, hpos]
  | answer _ hpos => simp [outstanding, hpos]
  | conclude _ hpos => simp [outstanding, hpos]
  | enterLate | finish | abort | work => rfl

theorem ended_of_reach (h : Reach c c') (hend : c.session.run.isRunning = false) :
    c'.session.run.isRunning = false := by
  rw [(Session.goesOn_of_decided ((evolves_of_reach h).frozen hend)).isRunning_eq, hend]

theorem calls_of_reach (h : Reach c c') (hend : c.session.run.isRunning = false) :
    c'.calls + outstanding c'.position = c.calls + outstanding c.position := by
  induction h with
  | refl => rfl
  | tail hreach hmove ih => rw [hmove.calls_eq (ended_of_reach hreach hend), ih]

/-! ## The calls of a session are made of these moves -/

/-- What a call leaves under way. -/
def landed (returned : Session σ × Option Nat) (calls : Nat) : Control σ where
  session := returned.1
  position := if returned.2.isSome then .flying else .idle
  calls := calls

theorem reach_fly (cancelled : Bool) (left : Nat) (s : Session σ) (calls : Nat) :
    ∃ calls', Reach { session := s, position := .flying, calls }
      (landed (s.fly cancelled left) calls') := by
  induction left generalizing s calls with
  | zero =>
    unfold Session.fly
    split
    · exact ⟨calls, .refl⟩
    · rename_i given hpoll
      exact ⟨calls, .tail (.single (.answer cancelled rfl hpoll)) (.conclude cancelled rfl)⟩
  | succ left ih =>
    unfold Session.fly
    split
    · exact ⟨calls, .refl⟩
    · rename_i given hpoll
      dsimp only
      have hanswered := (Relation.ReflTransGen.single (Move.answer
        (c := { session := s, position := .flying, calls }) cancelled rfl hpoll)).tail
        (.conclude cancelled rfl)
      split
      · rename_i hgo
        have hrun := (Bool.and_eq_true_iff.mp hgo).1
        obtain ⟨calls', hfly⟩ := ih _ (calls + 1)
        exact ⟨calls', ((hanswered.tail (.enter rfl hrun)).tail (.begin rfl)).trans hfly⟩
      · exact ⟨calls, hanswered⟩

theorem reach_step (cancelled : Bool) (s : Session σ) (calls : Nat) :
    ∃ calls', Reach { session := s, calls } (landed (s.step cancelled) calls') := by
  unfold Session.step
  split
  · rename_i hrun
    obtain ⟨calls', hfly⟩ := reach_fly cancelled 0 s.launch (calls + 1)
    exact ⟨calls', .head (.enter rfl hrun) (.head (.begin rfl) hfly)⟩
  · rename_i hend
    exact ⟨calls, .single (.enterLate rfl (by simpa using hend))⟩

theorem reach_steps (n : Int) (cancelled : Bool) (s : Session σ) (calls : Nat) :
    ∃ calls', Reach { session := s, calls } (landed (s.steps n cancelled) calls') := by
  unfold Session.steps
  split
  · rename_i hgo
    simp only [Bool.and_eq_true] at hgo
    obtain ⟨calls', hfly⟩ := reach_fly cancelled (n.toNat - 1) s.launch (calls + 1)
    exact ⟨calls', .head (.enter rfl hgo.1.2) (.head (.begin rfl) hfly)⟩
  · exact ⟨calls, .refl⟩

/-- The calls that step a session are made of moves. -/
theorem reach_calls (c : Control σ) :
    (c.position = .idle → ∀ cancelled,
      (∃ calls, Reach c (landed (c.session.step cancelled) calls)) ∧
        ∀ n, ∃ calls, Reach c (landed (c.session.steps n cancelled) calls)) ∧
      (c.position = .flying → ∀ cancelled left, ∃ calls,
        Reach c (landed (c.session.fly cancelled left) calls)) := by
  obtain ⟨session, position, calls⟩ := c
  refine ⟨fun hpos cancelled => ?_, fun hpos cancelled left => ?_⟩
  · cases hpos
    exact ⟨reach_step cancelled session calls, fun n => reach_steps n cancelled session calls⟩
  · cases hpos
    exact reach_fly cancelled left session calls

/-! ## The end is decided once -/

/-- The run ends at most once, and its end stays. -/
structure EndsOnce (c : Control σ) : Prop where
  /-- Whoever waits is told exactly when the run has ended. -/
  halted_eq : c.session.run.halted = !c.session.run.isRunning
  /-- Before the end only the number of steps is known. -/
  undecided : c.session.run.isRunning = true →
    c.session.run.outcome = { steps := c.session.run.outcome.steps }
  terminal : c.session.run.isRunning = false →
    c.session.run.outcome.status = .done ∨ c.session.run.outcome.status = .failed
  /-- The trace holds one change of status, once there has been one. -/
  recorded : ∀ t, c.session.run.trace = some t →
    t.transitions.length = if c.session.run.isRunning then 0 else 1
  /-- Waiting without giving up comes back with an end. -/
  waited : ∀ cancelled o, (o, none) ∈ c.session.run.waitOutcomes cancelled →
    o = c.session.run.outcome ∧ (o.status = .done ∨ o.status = .failed)
  /-- The end stays: outcome, cores above the ceiling, signal. -/
  frozen : c.session.run.isRunning = false → ∀ c', Reach c c' →
    c'.session.run.outcome = c.session.run.outcome ∧
      c'.session.run.watchdog.info = c.session.run.watchdog.info ∧
      c'.session.run.halted = true
  /-- After the end the oracle is asked for no step, except by a step that had
  already found the run running. -/
  no_calls : c.session.run.isRunning = false → ∀ c', Reach c c' →
    c'.calls ≤ c.calls + outstanding c.position
  /-- A step that begins after the end asks the oracle for events and displays
  only: it does the same with any other oracle that has these in common. -/
  no_questions : c.session.run.isRunning = false →
    ∀ (other : Oracle σ), other.event = own.event → other.display = own.display →
      ∀ cancelled, @Session.step σ other c.session cancelled =
        @Session.step σ own c.session cancelled
  /-- An answer that comes after the end is dropped: the outcome is the same for
  every answer and for every trap state, and neither the count of steps, nor the
  watchdog, nor the trace changes. -/
  dropped : c.session.run.isRunning = false →
    (∀ (other : Oracle σ), other.event = own.event → other.display = own.display →
      ∀ result cancelled result' cancelled',
        @Session.conclude σ other c.session result' cancelled' =
          @Session.conclude σ own c.session result cancelled) ∧
      ∀ result cancelled,
        (c.session.conclude result cancelled).run.outcome = c.session.run.outcome ∧
          (c.session.conclude result cancelled).run.watchdog = c.session.run.watchdog ∧
          (c.session.conclude result cancelled).run.trace = c.session.run.trace

theorem endsOnce_of_coherent (h : c.session.Coherent) : c.EndsOnce where
  halted_eq := h.halted_eq
  undecided := h.undecided
  terminal := h.terminal
  recorded := by
    intro t ht
    exact h.recorded t.transitions (by rw [ht]; rfl)
  waited := by
    intro cancelled o ho
    have hmem : c.session.run.halted = true ∧ o = c.session.run.outcome := by
      unfold Run.waitOutcomes at ho
      split at ho <;> split at ho <;> simp_all
    obtain ⟨hhalted, rfl⟩ := hmem
    rw [h.halted_eq, Bool.not_eq_true'] at hhalted
    exact ⟨rfl, h.terminal hhalted⟩
  frozen := by
    intro hend c' hreach
    have hsame := (evolves_of_reach hreach).frozen hend
    simp only [Session.decided, Prod.mk.injEq] at hsame
    obtain ⟨houtcome, hwatchdog, hhalted, -⟩ := hsame
    exact ⟨houtcome, by rw [hwatchdog], by rw [hhalted, h.halted_eq, hend]; rfl⟩
  no_calls := by
    intro hend c' hreach
    have hcalls := calls_of_reach hreach hend
    omega
  no_questions := by
    intro hend other hevent hdisplay cancelled
    rw [@Session.step_of_ended σ own _ hend, @Session.step_of_ended σ other _ hend,
      Session.dump_congr other own hevent hdisplay]
  dropped := by
    intro hend
    refine ⟨?_, fun result cancelled => ?_⟩
    · intro other hevent hdisplay result cancelled result' cancelled'
      rw [@Session.conclude_of_ended σ own _ hend, @Session.conclude_of_ended σ other _ hend,
        Session.dump_congr other own hevent hdisplay]
    · rw [Session.conclude_of_ended _ hend]
      have hsame := c.session.decided_dump
      simp only [Session.decided, Prod.mk.injEq] at hsame
      exact ⟨hsame.1, hsame.2.1, c.session.trace_dump⟩

/-- Whatever the oracle answers and however steps, aborts and shows of
statistics come between one another, the run ends at most once and its end
stays.  The calls that step a session are made of the moves considered. -/
theorem ends_once (limit : UInt64) (cores : Int) (level : String) (oracle : σ) (run : Run)
    (hrun : Run.create limit cores (Trace.create level) = .ok run) (c : Control σ)
    (hreach : Reach { session := { run, oracle } } c) :
    c.EndsOnce ∧
      (c.position = .idle → ∀ cancelled,
        (∃ calls, Reach c (landed (c.session.step cancelled) calls)) ∧
          ∀ n, ∃ calls, Reach c (landed (c.session.steps n cancelled) calls)) ∧
      (c.position = .flying → ∀ cancelled left, ∃ calls,
        Reach c (landed (c.session.fly cancelled left) calls)) := by
  refine ⟨endsOnce_of_coherent ?_, c.reach_calls⟩
  exact (Session.coherent_create oracle hrun).evolve (evolves_of_reach hreach)

/-- An abort comes while the oracle works on a step that would end the run well:
the answer is dropped and the step is not counted. -/
theorem ends_once_abort_in_flight :
    ∃ (run : Run) (c : Control Script),
      Run.create 0 1 (Trace.create "events") = .ok run ∧
      Reach { session := { run, oracle := { cues := [{ state := some 0 }] } } } c ∧
      c.calls = 1 ∧ c.session.run.outcome.steps = 0 ∧
      c.session.run.outcome.cause = some .fatal ∧ c.EndsOnce := by
  let run : Run :=
    { watchdog := { limit := 0, info := { trapped := #[false], cpi := #[0] } }
      trace := some { level := "events" }
      final := #[{}] }
  have hrun : Run.create 0 1 (Trace.create "events") = .ok run := rfl
  have entered := Relation.ReflTransGen.single (Move.enter (c := { session :=
    { run, oracle := ({ cues := [{ state := some 0 }] } : Script) } }) rfl rfl)
  have aborted := (entered.tail (.begin rfl)).tail (.abort (.text "worker failed"))
  have concluded := (aborted.tail (.answer false rfl rfl)).tail (.conclude false rfl)
  exact ⟨run, _, hrun, concluded, rfl, rfl, rfl,
    (ends_once 0 1 "events" _ run hrun _ concluded).1⟩

end Control

end Cosim

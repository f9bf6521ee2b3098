import Cosim.Proofs.Recording
import Mathlib.Logic.Relator

/-!
# Steps in batches

Steps may be asked for one by one or many at a time.  How many are asked for at a time makes no
difference: the oracle is asked the same questions in the same order, and the session ends up in the
same state.

* `Session.fly_add` takes the flight of many steps apart, and `Session.runsSteps_add` whole calls.
* `Session.drives_batch_iff` says that the calls of the loop may be any batches.
* `Session.batches_alike` is the main statement.
-/

namespace Cosim

namespace Session

open Oracle (Call Twin)

variable {σ : Type} [Oracle σ] {turn : σ → σ → Prop} {s last : Session σ} {calls : List Call}

/-! ## Taking calls apart -/

/-- Ask for `b` steps more. -/
def more (b : Nat) : Session σ × Option Nat → Session σ × Option Nat
  | (s, none) => s.steps b false
  | (s, some left) => (s, some (left + b))

def moreCalls (b : Nat) : Session σ × Option Nat → List Call
  | (s, none) => s.stepsCalls b
  | (_, some _) => []

/-- Steps that have been asked for together may be asked for apart. -/
def Splits (a b : Nat) (s : Session σ) : Prop :=
  s.steps (a + b : Nat) false = more b (s.steps a false) ∧
    s.stepsCalls (a + b : Nat) = s.stepsCalls a ++ moreCalls b (s.steps a false)

theorem fly_add_of_splits {left b : Nat} (hsplits : ∀ s : Session σ, s.Splits left b)
    (s : Session σ) :
    s.fly false (left + b) = more b (s.fly false left) ∧
      s.flyCalls (left + b) = s.flyCalls left ++ moreCalls b (s.fly false left) := by
  cases hpoll : Oracle.poll s.oracle s.run.halted with
  | none =>
    obtain ⟨hfly, hcalls⟩ := fly_of_wait hpoll left
    obtain ⟨hfly', hcalls'⟩ := fly_of_wait hpoll (left + b)
    rw [hfly, hcalls, hfly', hcalls']
    exact ⟨rfl, rfl⟩
  | some answer =>
    obtain ⟨hfly, hcalls⟩ := fly_of_answer hpoll left
    obtain ⟨hfly', hcalls'⟩ := fly_of_answer hpoll (left + b)
    obtain ⟨hsteps, hstepsCalls⟩ := hsplits (s.concluded answer)
    rw [hfly, hcalls, hfly', hcalls', hsteps, hstepsCalls, List.append_assoc]
    exact ⟨rfl, rfl⟩

/-- The steps that are left after an answer are fewer. -/
theorem splits (a b : Nat) (s : Session σ) : s.Splits a b := by
  induction a generalizing s with
  | zero =>
    obtain ⟨hsteps, hcalls⟩ := steps_of_nonpos (Int.le_refl 0) s
    rw [Splits, Nat.zero_add, Int.ofNat_zero, hsteps, hcalls]
    exact ⟨rfl, rfl⟩
  | succ a ih =>
    rw [Splits, Nat.add_right_comm]
    cases hrun : s.run.isRunning with
    | true =>
      obtain ⟨hsteps, hcalls⟩ := steps_of_running hrun a
      obtain ⟨hsteps', hcalls'⟩ := steps_of_running hrun (a + b)
      obtain ⟨hfly, hflyCalls⟩ := fly_add_of_splits ih s.launch
      rw [hsteps, hcalls, hsteps', hcalls', hfly, hflyCalls]
      exact ⟨rfl, rfl⟩
    | false =>
      obtain ⟨hsteps, hcalls⟩ := steps_of_ended hrun (a + 1 : Nat)
      obtain ⟨hsteps', hcalls'⟩ := steps_of_ended hrun (a + b + 1 : Nat)
      obtain ⟨hmore, hmoreCalls⟩ := steps_of_ended hrun b
      rw [hsteps, hcalls, hsteps', hcalls']
      exact ⟨hmore.symm, hmoreCalls.symm⟩

/-- A flight of many steps is a flight of some of them, and then the others. -/
theorem fly_add (left b : Nat) (s : Session σ) :
    s.fly false (left + b) = more b (s.fly false left) ∧
      s.flyCalls (left + b) = s.flyCalls left ++ moreCalls b (s.fly false left) :=
  fly_add_of_splits (fun s => splits left b s) s

/-- Where no step is in flight, the steps that are asked for more are a call of their own. -/
theorem runsSteps_of_lands_more {b : Nat} {rest : List Call}
    (hlands : Lands turn (more b (s, none)) rest last) :
    ∃ mid first second, Lands turn (s, none) first mid ∧ RunsSteps turn b mid second last ∧
      moreCalls b (s, none) ++ rest = first ++ second :=
  ⟨s, [], _, .rested s, ⟨rest, rfl, hlands⟩, rfl⟩

/-- A call comes to rest with more steps as it does without them and then with the others. -/
theorem lands_more_iff {b : Nat} {flight : Session σ × Option Nat} :
    (∃ rest, calls = moreCalls b flight ++ rest ∧ Lands turn (more b flight) rest last) ↔
      ∃ mid first second, Lands turn flight first mid ∧ RunsSteps turn b mid second last ∧
        calls = first ++ second := by
  constructor
  · rintro ⟨rest, rfl, hlands⟩
    -- The induction is on the waits of the longer call.
    generalize hmore : more b flight = joined at hlands
    induction hlands generalizing flight with
    | rested s =>
      rcases flight with ⟨start, _ | left⟩
      · exact runsSteps_of_lands_more (hmore ▸ .rested s)
      · cases hmore
    | @waited s last joinedLeft oracle calls hturn hrest ih =>
      rcases flight with ⟨start, _ | left⟩
      · exact runsSteps_of_lands_more (hmore ▸ .waited hturn hrest)
      · cases hmore
        obtain ⟨hfly, hcalls⟩ := fly_add left b { s with oracle }
        obtain ⟨mid, first, second, hfirst, hsecond, hsame⟩ := ih hfly.symm
        refine ⟨mid, _, second, .waited hturn hfirst, hsecond, ?_⟩
        rw [hcalls, List.append_assoc, hsame, List.append_assoc]
        rfl
  · rintro ⟨mid, first, second, hfirst, ⟨rest, rfl, hrest⟩, rfl⟩
    induction hfirst with
    | rested s => exact ⟨rest, rfl, hrest⟩
    | @waited s mid left oracle calls hturn hfirst ih =>
      obtain ⟨hfly, hcalls⟩ := fly_add left b { s with oracle }
      obtain ⟨rest', hsame, hlands⟩ := ih hrest
      refine ⟨_, ?_, .waited hturn (hfly ▸ hlands)⟩
      rw [hcalls, List.append_assoc, List.append_assoc, hsame]
      rfl

/-- Two calls for some steps each are one call for all of them. -/
theorem runsSteps_add (a b : Nat) :
    RunsSteps turn (a + b : Nat) s calls last ↔
      ∃ mid first second, RunsSteps turn a s first mid ∧ RunsSteps turn b mid second last ∧
        calls = first ++ second := by
  obtain ⟨hsteps, hcalls⟩ := splits a b s
  constructor
  · rintro ⟨rest, rfl, hlands⟩
    rw [hsteps] at hlands
    obtain ⟨mid, first, second, hfirst, hsecond, hsame⟩ := lands_more_iff.mp ⟨rest, rfl, hlands⟩
    refine ⟨mid, _, second, ⟨first, rfl, hfirst⟩, hsecond, ?_⟩
    rw [hcalls, List.append_assoc, hsame, List.append_assoc]
  · rintro ⟨mid, _, second, ⟨first, rfl, hfirst⟩, hsecond, rfl⟩
    obtain ⟨rest, hsame, hlands⟩ := lands_more_iff.mpr ⟨mid, first, second, hfirst, hsecond, rfl⟩
    refine ⟨rest, ?_, hsteps ▸ hlands⟩
    rw [hcalls, List.append_assoc, List.append_assoc, hsame]

/-! ## The loop -/

/-- Where nothing is asked for, nothing happens. -/
theorem runsSteps_of_idle {n : Int} (hidle : s.steps n false = (s, none) ∧ s.stepsCalls n = []) :
    RunsSteps turn n s calls last ↔ calls = [] ∧ last = s := by
  rw [RunsSteps, hidle.1, hidle.2]
  constructor
  · rintro ⟨rest, rfl, hlands⟩
    cases hlands
    exact ⟨rfl, rfl⟩
  · rintro ⟨rfl, rfl⟩
    exact ⟨[], rfl, .rested _⟩

/-- The steps of a batch are driven one by one. -/
theorem Drives.of_runsSteps {calls' : List Call} {mid : Session σ} (n : Nat)
    (hsteps : RunsSteps turn n s calls mid) (hrest : Drives (RunsStep turn) mid calls' last) :
    Drives (RunsStep turn) s (calls ++ calls') last := by
  induction n generalizing s calls with
  | zero =>
    obtain ⟨rfl, rfl⟩ := (runsSteps_of_idle (steps_of_nonpos (Int.le_refl 0) s)).mp hsteps
    exact hrest
  | succ n ih =>
    cases hrun : s.run.isRunning with
    | true =>
      rw [Nat.add_comm] at hsteps
      obtain ⟨next, first, second, hfirst, hsecond, rfl⟩ := (runsSteps_add 1 n).mp hsteps
      rw [List.append_assoc]
      exact .again hrun ((runsStep_iff hrun).mpr hfirst) (ih hsecond)
    | false =>
      obtain ⟨rfl, rfl⟩ := (runsSteps_of_idle (steps_of_ended hrun _)).mp hsteps
      exact hrest

/-- What is driven step by step is driven in batches, after any number of steps. -/
theorem Drives.batched {batch : Nat} (hbatch : 0 < batch)
    (hdrives : Drives (RunsStep turn) s calls last) (n : Nat) :
    ∃ mid first second, RunsSteps turn n s first mid ∧
      Drives (RunsSteps turn batch) mid second last ∧ calls = first ++ second := by
  induction hdrives generalizing n with
  | @ended s hend =>
    exact ⟨s, [], _, (runsSteps_of_idle (steps_of_ended hend n)).mpr ⟨rfl, rfl⟩, .ended hend, rfl⟩
  | @again s next last calls calls' hrun hcall hrest ih =>
    have hone := (runsStep_iff hrun).mp hcall
    cases n with
    | zero =>
      obtain ⟨mid, first, second, hfirst, hsecond, rfl⟩ := ih (batch - 1)
      have hall : RunsSteps turn batch s (calls ++ first) mid := by
        rw [show batch = 1 + (batch - 1) by omega]
        exact (runsSteps_add 1 (batch - 1)).mpr ⟨next, calls, first, hone, hfirst, rfl⟩
      refine ⟨s, [], _, (runsSteps_of_idle (steps_of_nonpos (Int.le_refl 0) s)).mpr ⟨rfl, rfl⟩,
        .again hrun hall hsecond, ?_⟩
      rw [List.nil_append, List.append_assoc]
    | succ n =>
      obtain ⟨mid, first, second, hfirst, hsecond, rfl⟩ := ih n
      refine ⟨mid, calls ++ first, second, ?_, hsecond, by rw [List.append_assoc]⟩
      rw [Nat.add_comm]
      exact (runsSteps_add 1 n).mpr ⟨next, calls, first, hone, hfirst, rfl⟩

/-- The loop may take its steps in batches of any size. -/
theorem drives_batch_iff {batch : Nat} (hbatch : 0 < batch) :
    Drives (RunsSteps turn batch) s calls last ↔ Drives (RunsStep turn) s calls last := by
  constructor
  · intro hdrives
    induction hdrives with
    | ended hend => exact .ended hend
    | again hrun hcall _ ih => exact .of_runsSteps batch hcall ih
  · intro hdrives
    obtain ⟨mid, first, second, hfirst, hsecond, rfl⟩ := hdrives.batched hbatch 0
    obtain ⟨rfl, rfl⟩ := (runsSteps_of_idle (steps_of_nonpos (Int.le_refl 0) s)).mp hfirst
    exact hsecond

/-! ## No step after the end -/

/-- Steps are begun only while the run goes on. -/
def OnlyRunning (calls : List Call) : Prop := ∀ running, Call.step running ∈ calls → running = true

theorem onlyRunning_nil : OnlyRunning [] := by
  intro running hmem
  cases hmem

theorem OnlyRunning.append {calls calls' : List Call} (h : OnlyRunning calls)
    (h' : OnlyRunning calls') : OnlyRunning (calls ++ calls') := by
  intro running hmem
  rcases List.mem_append.mp hmem with hmem | hmem
  · exact h running hmem
  · exact h' running hmem

omit [Oracle σ] in
theorem onlyRunning_showCalls (s : Session σ) : OnlyRunning s.showCalls := by
  intro running hmem
  simp [showCalls] at hmem

omit [Oracle σ] in
theorem onlyRunning_dumpCalls (s : Session σ) : OnlyRunning s.dumpCalls := by
  unfold dumpCalls
  split
  · exact onlyRunning_nil
  · exact s.onlyRunning_showCalls

theorem onlyRunning_watchCalls (s : Session σ) : OnlyRunning s.watchCalls := by
  intro running hmem
  unfold watchCalls at hmem
  split at hmem <;> simp at hmem

theorem onlyRunning_concludeCalls (s : Session σ) (result : Except Error Bool) :
    OnlyRunning (s.concludeCalls result) := by
  unfold concludeCalls
  split
  · exact s.onlyRunning_dumpCalls
  · cases result with
    | error e => exact s.onlyRunning_dumpCalls
    | ok differs =>
      dsimp only
      split
      · exact s.onlyRunning_dumpCalls
      · intro running hmem
        rcases List.mem_cons.mp hmem with hstate | hmem
        · cases hstate
        · split at hmem
          · exact s.onlyRunning_showCalls running hmem
          · exact s.onlyRunning_watchCalls running hmem

theorem onlyRunning_flyCalls_of_steps {left : Nat}
    (hsteps : ∀ s : Session σ, OnlyRunning (s.stepsCalls left)) (s : Session σ) :
    OnlyRunning (s.flyCalls left) := by
  cases hpoll : Oracle.poll s.oracle s.run.halted with
  | none =>
    rw [(fly_of_wait hpoll left).2]
    exact onlyRunning_nil
  | some answer =>
    rw [(fly_of_answer hpoll left).2]
    exact (onlyRunning_concludeCalls _ _).append (hsteps _)

theorem onlyRunning_stepsCalls (n : Nat) (s : Session σ) : OnlyRunning (s.stepsCalls n) := by
  induction n generalizing s with
  | zero =>
    rw [Int.ofNat_zero, (steps_of_nonpos (Int.le_refl 0) s).2]
    exact onlyRunning_nil
  | succ n ih =>
    cases hrun : s.run.isRunning with
    | true =>
      rw [(steps_of_running hrun n).2]
      intro running hmem
      rcases List.mem_cons.mp hmem with hfirst | hmem
      · exact Call.step.inj hfirst
      · exact onlyRunning_flyCalls_of_steps ih _ running hmem
    | false =>
      rw [(steps_of_ended hrun _).2]
      exact onlyRunning_nil

theorem Lands.onlyRunning {flight : Session σ × Option Nat} (h : Lands turn flight calls last) :
    OnlyRunning calls := by
  induction h with
  | rested s => exact onlyRunning_nil
  | waited hturn hrest ih =>
    exact (onlyRunning_flyCalls_of_steps (onlyRunning_stepsCalls _) _).append ih

/-- The loop leaves a run that has ended, and begins no step after the end. -/
theorem Drives.stops (h : Drives (RunsStep turn) s calls last) :
    last.run.isRunning = false ∧ OnlyRunning calls := by
  induction h with
  | @ended s hend =>
    obtain ⟨hfinish, hcalls⟩ := finish_of_ended hend
    rw [hfinish, hcalls, (goesOn_of_decided s.decided_dump).isRunning_eq]
    exact ⟨hend, s.onlyRunning_dumpCalls⟩
  | again hrun hcall hrest ih =>
    obtain ⟨rest, rfl, hlands⟩ := (runsStep_iff hrun).mp hcall
    exact ⟨ih.1, ((onlyRunning_stepsCalls 1 _).append hlands.onlyRunning).append ih.2⟩

/-! ## One way only -/

section Unique

variable {calls' : List Call} {last' : Session σ}

/-- Where the oracle can take one turn only, a call comes to rest in one way. -/
theorem Lands.unique (hturn : Relator.RightUnique turn) {flight : Session σ × Option Nat}
    (h : Lands turn flight calls last) (h' : Lands turn flight calls' last') :
    calls = calls' ∧ last = last' := by
  induction h generalizing calls' last' with
  | rested s =>
    cases h'
    exact ⟨rfl, rfl⟩
  | waited hfirst hrest ih =>
    cases h' with
    | waited hfirst' hrest' =>
      cases hturn hfirst hfirst'
      obtain ⟨rfl, rfl⟩ := ih hrest'
      exact ⟨rfl, rfl⟩

theorem RunsSteps.unique (hturn : Relator.RightUnique turn) {n : Int}
    (h : RunsSteps turn n s calls last) (h' : RunsSteps turn n s calls' last') :
    calls = calls' ∧ last = last' := by
  obtain ⟨rest, rfl, hlands⟩ := h
  obtain ⟨rest', rfl, hlands'⟩ := h'
  obtain ⟨rfl, rfl⟩ := hlands.unique hturn hlands'
  exact ⟨rfl, rfl⟩

theorem Drives.unique (hturn : Relator.RightUnique turn)
    (h : Drives (RunsStep turn) s calls last) (h' : Drives (RunsStep turn) s calls' last') :
    calls = calls' ∧ last = last' := by
  induction h generalizing calls' last' with
  | ended hend =>
    cases h' with
    | ended => exact ⟨rfl, rfl⟩
    | again hrun => simp [hend] at hrun
  | again hrun hcall hrest ih =>
    cases h' with
    | ended hend => simp [hend] at hrun
    | again _ hcall' hrest' =>
      obtain ⟨rfl, rfl⟩ :=
        ((runsStep_iff hrun).mp hcall).unique hturn ((runsStep_iff hrun).mp hcall')
      obtain ⟨rfl, rfl⟩ := ih hrest'
      exact ⟨rfl, rfl⟩

end Unique

/-! ## All of it -/

/-- A call for `n` steps returns the exit code of the run as it is then. -/
def Returns (turn : σ → σ → Prop) (n : Int) (s : Session σ) (calls : List Call)
    (last : Session σ) (code : Int) : Prop :=
  RunsSteps turn n s calls last ∧ code = last.run.outcome.exitCode

/-- How many steps are asked for at a time makes no difference, to what the oracle is asked, to the
session and to what is returned. -/
structure BatchesAlike (turn : σ → σ → Prop) (s : Session σ) : Prop where
  joined : ∀ a b : Int, 0 ≤ a → 0 ≤ b → ∀ calls last code, Returns turn (a + b) s calls last code ↔
    ∃ mid midCode first second, Returns turn a s first mid midCode ∧
      Returns turn b mid second last code ∧ calls = first ++ second
  driven : ∀ batch : Int, 1 ≤ batch → ∀ calls last,
    Drives (RunsSteps turn batch) s calls last ↔ Drives (RunsStep turn) s calls last
  /-- The loop begins no step after the one that ended the run. -/
  stops : ∀ batch : Int, 1 ≤ batch → ∀ calls last, Drives (RunsSteps turn batch) s calls last →
    last.run.isRunning = false ∧ OnlyRunning calls
  /-- The calls are those that are made: the twin that records what changes the oracle goes the same
  way, and finds these calls in its record. -/
  recorded : ∀ batch : Int, 1 ≤ batch →
    (∀ calls last, Drives (RunsSteps turn batch) s calls last →
      ∃ twin, Drives (RunsSteps (Twin.turn turn) batch) s.recorded calls twin ∧
        twin.Mirrors last) ∧
    ∀ calls twin, Drives (RunsSteps (Twin.turn turn) batch) s.recorded calls twin →
      twin.oracle.made = calls.filter Call.changes
  /-- Where the oracle leaves no choice, there is one way to go through the steps. -/
  same : Relator.RightUnique turn → (∀ n calls last code calls' last' code',
      Returns turn n s calls last code → Returns turn n s calls' last' code' →
        calls = calls' ∧ last = last' ∧ code = code') ∧
    ∀ batch batch' : Int, 1 ≤ batch → 1 ≤ batch' → ∀ calls last calls' last',
      Drives (RunsSteps turn batch) s calls last → Drives (RunsSteps turn batch') s calls' last' →
        calls = calls' ∧ last = last'

theorem returns_add {a b : Int} (ha : 0 ≤ a) (hb : 0 ≤ b) {code : Int} :
    Returns turn (a + b) s calls last code ↔
      ∃ mid midCode first second, Returns turn a s first mid midCode ∧
        Returns turn b mid second last code ∧ calls = first ++ second := by
  obtain ⟨a, rfl⟩ := Int.eq_ofNat_of_zero_le ha
  obtain ⟨b, rfl⟩ := Int.eq_ofNat_of_zero_le hb
  constructor
  · rintro ⟨hall, hcode⟩
    obtain ⟨mid, first, second, hfirst, hsecond, hcalls⟩ := (runsSteps_add a b).mp hall
    exact ⟨mid, _, first, second, ⟨hfirst, rfl⟩, ⟨hsecond, hcode⟩, hcalls⟩
  · rintro ⟨mid, midCode, first, second, ⟨hfirst, -⟩, ⟨hsecond, hcode⟩, hcalls⟩
    exact ⟨(runsSteps_add a b).mpr ⟨mid, first, second, hfirst, hsecond, hcalls⟩, hcode⟩

theorem drives_iff_of_pos {batch : Int} (hbatch : 1 ≤ batch) :
    Drives (RunsSteps turn batch) s calls last ↔ Drives (RunsStep turn) s calls last := by
  obtain ⟨n, rfl⟩ := Int.eq_ofNat_of_zero_le (show 0 ≤ batch by omega)
  exact drives_batch_iff (by omega)

/-- For every oracle, whatever turns it takes while a step waits, and for every session: steps may
be asked for in batches of any size. -/
theorem batches_alike (turn : σ → σ → Prop) (s : Session σ) : BatchesAlike turn s where
  joined := fun _ _ ha hb _ _ _ => returns_add ha hb
  driven := fun _ hbatch _ _ => drives_iff_of_pos hbatch
  stops := fun _ hbatch _ _ hdrives => ((drives_iff_of_pos hbatch).mp hdrives).stops
  recorded := by
    refine fun batch hbatch => ⟨fun calls last hdrives => ?_, fun calls twin hdrives => ?_⟩
    · have hmirrors : s.recorded.Mirrors s := ⟨rfl, rfl⟩
      obtain ⟨twin, hdrives', htwin⟩ := ((drives_iff_of_pos hbatch).mp hdrives).twin hmirrors
      exact ⟨twin, (drives_iff_of_pos hbatch).mpr hdrives', htwin⟩
    · exact ((drives_iff_of_pos hbatch).mp hdrives).makes
  same := by
    refine fun hturn => ⟨?_, ?_⟩
    · rintro n calls last code calls' last' code' ⟨hruns, rfl⟩ ⟨hruns', rfl⟩
      obtain ⟨rfl, rfl⟩ := hruns.unique hturn hruns'
      exact ⟨rfl, rfl, rfl⟩
    · intro batch batch' hbatch hbatch' calls last calls' last' hdrives hdrives'
      exact ((drives_iff_of_pos hbatch).mp hdrives).unique hturn
        ((drives_iff_of_pos hbatch').mp hdrives')

/-- The second of three steps waits once, and the third finds a trap.  A batch of two stops there,
and in batches of any size three steps are begun.  A recording oracle has recorded these steps and
the display. -/
theorem batches_alike_with_wait :
    let turn : Script → Script → Prop :=
      fun o o' => o' = { o with current := { o.current with blocks := false } }
    let run : Run :=
      { watchdog := { limit := 0, info := { trapped := #[false], cpi := #[0] } }, final := #[{}] }
    let s : Session Script :=
      { run, oracle := { cues := [{}, { blocks := true }, { state := some trapGood }] } }
    let calls : List Call :=
      [.step true, .state, .step true, .state, .step true, .state, .event 0, .display 0]
    ∃ last, Drives (RunsSteps turn 2) s calls last ∧
      (∀ batch : Int, 1 ≤ batch → Drives (RunsSteps turn batch) s calls last) ∧
      ∃ twin, Drives (RunsSteps (Twin.turn turn) 2) s.recorded calls twin ∧ twin.Mirrors last ∧
        twin.oracle.made = [.step true, .step true, .step true, .display 0] := by
  intro turn run s calls
  let waiting := (s.steps 2 false).1
  let woken : Session Script :=
    { waiting with
      oracle :=
        { waiting.oracle with current := { waiting.oracle.current with blocks := false } } }
  let mid := (woken.fly false 0).1
  let last := (mid.steps 2 false).1
  have hpair : ∀ (flight : Session Script × Option Nat) (left : Option Nat),
      flight.2 = left → flight = (flight.1, left) := fun _ _ hleft => Prod.ext rfl hleft
  have hwaits : s.steps 2 false = (waiting, some 0) := hpair _ _ (by decide +kernel)
  have hwoken : woken.fly false 0 = (mid, none) := hpair _ _ (by decide +kernel)
  have hlast : mid.steps 2 false = (last, none) := hpair _ _ (by decide +kernel)
  have hfirst : RunsSteps turn 2 s [.step true, .state, .step true, .state] mid := by
    have hturn : turn waiting.oracle woken.oracle := rfl
    have hrest : Lands turn (woken.fly false 0) [] mid := hwoken ▸ .rested mid
    refine ⟨woken.flyCalls 0 ++ [], by decide +kernel, ?_⟩
    rw [hwaits]
    exact .waited hturn hrest
  have hsecond : RunsSteps turn 2 mid [.step true, .state, .event 0, .display 0] last := by
    refine ⟨[], by decide +kernel, ?_⟩
    rw [hlast]
    exact .rested last
  have hrun : mid.run.isRunning = true := by decide +kernel
  have hend : last.run.isRunning = false := by decide +kernel
  have hshown : last.finishCalls = [] := by decide +kernel
  have hdrives : Drives (RunsSteps turn 2) s calls last.finish := by
    have hended : Drives (RunsSteps turn 2) last last.finishCalls last.finish := .ended hend
    rw [hshown] at hended
    exact .again rfl hfirst (.again hrun hsecond hended)
  have halike := batches_alike turn s
  obtain ⟨hgoes, hrecords⟩ := halike.recorded 2 (by decide)
  obtain ⟨twin, htwin, hmirrors⟩ := hgoes calls last.finish hdrives
  refine ⟨last.finish, hdrives, fun batch hbatch => ?_, twin, htwin, hmirrors,
    hrecords calls twin htwin⟩
  rw [halike.driven batch hbatch, ← halike.driven 2 (by decide)]
  exact hdrives

end Session

end Cosim

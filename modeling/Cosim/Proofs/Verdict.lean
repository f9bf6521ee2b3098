import Cosim.Pipeline
import Cosim.Proofs.Comparison
import Cosim.Proofs.RunControl
import Mathlib.Data.List.Basic

/-!
# The verdict on a sequence of blocks

What a run comes to, said as one fold over the states that the cores report,
without workers, exchange or run control.  At each step every core is compared
with its golden record, if it has one; then traps count; then the instruction
ceiling; and a sequence that comes to its end is an error.

* `Verdict.judge` is the fold.
* `Checker.At` and `Run.At` say where checker and run stand after some steps of it.
* `Checker.At.accept` and `Session.conclude_answer` say that a step of the checker,
  and of the run control after it, is a step of the fold.
-/

namespace Cosim

/-- How a run ends: its outcome, the cores above the ceiling, the last events. -/
structure Verdict where
  outcome : Outcome
  info : EndInfo
  final : List TrapEvent

namespace Verdict

/-- The event with which each core crossed the ceiling, if it has. -/
abbrev Marks := List (Option TrapEvent)

/-- Mark the cores that are above the ceiling for the first time. -/
def mark (limit : UInt64) (marks : Marks) (states : List CoreState) : Marks :=
  List.zipWith
    (fun mark s => mark.or (if limit < s.trap.instrs then some s.trap else none)) marks states

@[simp] theorem mark_nil (limit : UInt64) (states : List CoreState) : mark limit [] states = [] :=
  rfl

@[simp] theorem mark_cons (limit : UInt64) (first : Option TrapEvent) (marks : Marks)
    (s : CoreState) (states : List CoreState) :
    mark limit (first :: marks) (s :: states) =
      first.or (if limit < s.trap.instrs then some s.trap else none) :: mark limit marks states :=
  rfl

/-- What the marks say about each core. -/
def infoOf (marks : Marks) : EndInfo where
  trapped := (marks.map Option.isSome).toArray
  cpi := (marks.map fun mark => (mark.map TrapEvent.cpi).getD 0).toArray
  count := marks.countP Option.isSome

/-- The events that the marks keep; a core without a mark has none yet. -/
def eventsOf (marks : Marks) : List TrapEvent := marks.map (·.getD {})

/-- The state of a core differs from the golden record of the step after `k`. -/
def differs (golden : List CoreState) (k : Nat) (got : CoreState) : Bool :=
  match golden[k]? with
  | none => false
  | some want =>
    want.commit ≠ got.commit ∨ want.regs ≠ got.regs ∨ want.trap.pc ≠ got.trap.pc

/-- Some core, from `core` on, differs from its golden record. -/
def mismatch (golden : Nat → List CoreState) (k core : Nat) : List CoreState → Bool
  | [] => false
  | s :: rest => differs (golden core) k s || mismatch golden k (core + 1) rest

/-- The end of a run by a trap with this code. -/
def trapped (code : Int) (steps : UInt64) : Outcome :=
  if code = trapGood then { status := .done, trapCode := code, cause := some .goodTrap, steps }
  else
    { status := .failed, trapCode := code, cause := some .trapCode
      failure := some (.trapCode code), steps }

/-- Judge the blocks that follow `k` steps, after which the cores were in the
states `last`. -/
def judge (golden : Nat → List CoreState) (limit : UInt64) :
    Nat → Marks → List CoreState → List (List CoreState) → Verdict
  | k, marks, last, [] =>
    { outcome :=
        { status := .failed, cause := some .fatal
          failure := some (.fatal (some (.ofNat (k + 1))) (.streamEnded (.ofNat k)))
          steps := .ofNat k }
      info := infoOf marks
      final := last.map (·.trap) }
  | k, marks, _, states :: rest =>
    let steps : UInt64 := .ofNat (k + 1)
    if mismatch golden k 0 states then
      { outcome :=
          { status := .failed, cause := some .mismatch, failure := some (.mismatch steps), steps }
        info := infoOf marks
        final := states.map (·.trap) }
    else
      match states.find? (·.trap.hasTrap) with
      | some s =>
        { outcome := trapped s.trap.code.toNat steps
          info := infoOf marks
          final := states.map (·.trap) }
      | none =>
        if limit = 0 then judge golden limit (k + 1) marks states rest
        else
          let marks := mark limit marks states
          if marks.all Option.isSome then
            { outcome := { status := .done, cause := some .instrLimit, steps }
              info := infoOf marks
              final := eventsOf marks }
          else judge golden limit (k + 1) marks states rest

/-- The verdict on all blocks of a run. -/
def ofBlocks (cores : Nat) (golden : Nat → List CoreState) (limit : UInt64)
    (blocks : List (List CoreState)) : Verdict :=
  judge golden limit 0 (List.replicate cores none) (List.replicate cores {}) blocks

end Verdict

/-! ## Golden records -/

namespace Golden

variable {g : Golden} {core : Nat} {records : List CoreState} {k : Nat}

theorem agreesAt_eq (records : List CoreState) (k : Nat) (got : CoreState) :
    agreesAt records k got = !Verdict.differs records k got := by
  unfold agreesAt Verdict.differs
  cases records[k]? with
  | none => rfl
  | some want =>
    dsimp only [agrees]
    by_cases h : want.commit = got.commit ∧ want.regs = got.regs ∧ want.trap.pc = got.trap.pc
    · simp [h]
    · simp only [h, decide_false]
      simp only [not_and_or] at h
      simp [h]

/-- A comparison looks at the next golden record of its core, if there is one, and
at no other core. -/
theorem compare_ok (hheld : g.released = false) (hcore : core < g.lanes.size)
    (hlane : (g.lanes.getD core {}).At records k) (got : CoreState) :
    ∃ g' notes, g.compare core got = .ok (g', !Verdict.differs records k got, notes) ∧
      g'.released = false ∧ g'.lanes.size = g.lanes.size ∧
      (g'.lanes.getD core {}).At records (k + 1) ∧
      ∀ other, other ≠ core → g'.lanes.getD other {} = g.lanes.getD other {} := by
  obtain ⟨hmoved, hsame⟩ := hlane.compare core got
  rw [compare_eq hheld hcore, ← agreesAt_eq, ← hsame]
  refine ⟨_, _, rfl, hheld, by simp, ?_, ?_⟩
  · simpa [Array.getD_eq_getD_getElem?, hcore] using hmoved
  · intro other hne
    simp [Array.getD_eq_getD_getElem?, Array.getElem?_setIfInBounds_ne hne.symm]

end Golden

/-! ## The checker -/

/-- Where the checker stands after `k` steps: it has the states of the last one, and
has compared them with the golden records up to there. -/
structure Checker.At (c : Checker) (golden : Nat → List CoreState) (k : Nat)
    (last : List CoreState) : Prop where
  cores_eq : c.cores.toList = last
  steps_eq : c.steps = .ofNat k
  none_golden : c.golden = none → ∀ core, golden core = []
  some_golden : ∀ g, c.golden = some g → g.released = false ∧ g.lanes.size = last.length ∧
    ∀ core < last.length, (g.lanes.getD core {}).At (golden core) k

namespace Checker

variable {golden : Nat → List CoreState} {k : Nat} {last states : List CoreState}

theorem adopt_eq {cores : Array CoreState} {records : List CoreState}
    (hlen : records.length = cores.size) : adopt cores records = records.toArray := by
  unfold adopt
  congr 1
  refine List.ext_getElem (by simp [hlen]) fun i hi hi' => ?_
  simp [List.getD_eq_getElem?_getD, hi']

/-- Comparing the cores from `core` on moves every lane from there on by one. -/
theorem compareFrom_eq (seq : UInt64) {g : Golden} {core : Nat} (hheld : g.released = false)
    (hsize : core + states.length = g.lanes.size)
    (hlanes : ∀ i < states.length, (g.lanes.getD (core + i) {}).At (golden (core + i)) k) :
    (compareFrom seq core g states).2.1 = Verdict.mismatch golden k core states ∧
      (compareFrom seq core g states).1.released = false ∧
      (compareFrom seq core g states).1.lanes.size = g.lanes.size ∧
      (∀ i < core, (compareFrom seq core g states).1.lanes.getD i {} = g.lanes.getD i {}) ∧
      ∀ i < states.length, ((compareFrom seq core g states).1.lanes.getD (core + i) {}).At
        (golden (core + i)) (k + 1) := by
  induction states generalizing g core with
  | nil => simp [compareFrom, Verdict.mismatch, hheld]
  | cons s rest ih =>
    rw [List.length_cons] at hsize
    have hfirst := hlanes 0 (by simp)
    rw [Nat.add_zero] at hfirst
    obtain ⟨g', notes, hcompare, hheld', hsize', hlane', hothers⟩ :=
      Golden.compare_ok hheld (by omega) hfirst s
    have hrest : ∀ i < rest.length,
        (g'.lanes.getD (core + 1 + i) {}).At (golden (core + 1 + i)) k := by
      intro i hi
      rw [hothers _ (by omega), show core + 1 + i = core + (i + 1) by omega]
      exact hlanes (i + 1) (by simpa using hi)
    obtain ⟨hflag, hheld'', hsize'', hbefore, hafter⟩ := ih hheld' (by omega) hrest
    simp only [compareFrom, hcompare, Bool.not_not]
    refine ⟨by rw [hflag]; rfl, hheld'', hsize''.trans hsize', ?_, ?_⟩
    · intro i hi
      rw [hbefore i (by omega), hothers i (by omega)]
    · intro i hi
      cases i with
      | zero =>
        rw [show core + 0 = core from rfl, hbefore core (by omega)]
        exact hlane'
      | succ i =>
        rw [show core + (i + 1) = core + 1 + i by omega]
        exact hafter i (by simpa using hi)

/-- Taking in a snapshot is one step of the verdict's comparison. -/
theorem At.accept {c : Checker} (hc : c.At golden k last) {s : Snapshot}
    (hlen : s.records.length = last.length) :
    (c.accept s).1.At golden (k + 1) s.records ∧
      (c.accept s).2.1 = Verdict.mismatch golden k 0 s.records := by
  have hadopt : adopt c.cores s.records = s.records.toArray := by
    refine adopt_eq ?_
    rw [hlen, ← hc.cores_eq, Array.length_toList]
  have hsteps : c.steps + 1 = .ofNat (k + 1) := by
    rw [hc.steps_eq, UInt64.ofNat_add]
    rfl
  cases hgolden : c.golden with
  | none =>
    have hempty := hc.none_golden hgolden
    have hsame : Verdict.mismatch golden k 0 s.records = false := by
      generalize s.records = states, 0 = core
      induction states generalizing core with
      | nil => rfl
      | cons state rest ih => simp [Verdict.mismatch, Verdict.differs, hempty, ih]
    simp only [Checker.accept, hadopt, hgolden, hsame]
    exact ⟨⟨rfl, hsteps, fun _ => hempty, by simp⟩, trivial⟩
  | some g =>
    obtain ⟨hheld, hsize, hlanes⟩ := hc.some_golden g hgolden
    have hlanes₀ : ∀ i < s.records.length, (g.lanes.getD (0 + i) {}).At (golden (0 + i)) k := by
      intro i hi
      rw [Nat.zero_add]
      exact hlanes i (by omega)
    obtain ⟨hflag, hheld', hsize', -, hlanes'⟩ :=
      compareFrom_eq s.seq hheld (show 0 + s.records.length = _ by omega) hlanes₀
    simp only [Checker.accept, hadopt, hgolden, List.toList_toArray]
    refine ⟨⟨rfl, hsteps, by simp, ?_⟩, hflag⟩
    rintro g' hg'
    cases hg'
    refine ⟨hheld', by omega, fun core hcore => ?_⟩
    simpa using hlanes' core hcore

end Checker

/-! ## The watchdog -/

namespace Watchdog

open Verdict

variable {w : Watchdog} {event : Nat → TrapEvent}

theorem isTrapped_eq {before after : Marks} {mark : Option TrapEvent}
    (hinfo : w.info = infoOf (before ++ mark :: after)) :
    w.isTrapped before.length = mark.isSome := by
  simp [isTrapped, hinfo, infoOf, Array.getD_eq_getD_getElem?]

theorem flag_info {before after : Marks} (hinfo : w.info = infoOf (before ++ none :: after))
    (event : TrapEvent) :
    (w.flag before.length event).info = infoOf (before ++ some event :: after) := by
  have hset : ∀ {α : Type} (f : Option TrapEvent → α),
      ((before ++ none :: after).map f).toArray.set! before.length (f (some event)) =
        ((before ++ some event :: after).map f).toArray := by
    intro α f
    simp
  simp only [flag, hinfo, infoOf]
  rw [EndInfo.mk.injEq]
  refine ⟨hset Option.isSome, hset fun mark => (mark.map TrapEvent.cpi).getD 0, ?_⟩
  simp [List.countP_append]
  omega

theorem flag_events (before after : Marks) (event : TrapEvent) :
    (eventsOf (before ++ none :: after)).toArray.set! before.length event =
      (eventsOf (before ++ some event :: after)).toArray := by
  simp [eventsOf]

/-- A sweep marks the cores that are above the ceiling for the first time, and
reports the events that it marks them with. -/
theorem sweep_eq {before after : Marks} {states : List CoreState}
    (hinfo : w.info = infoOf (before ++ after)) (hlen : states.length = after.length)
    (hevent : ∀ i (hi : i < states.length), event (before.length + i) = states[i].trap) :
    (w.sweep (fun core => .ok (event core)) (List.range' before.length after.length)).watchdog =
        { w with info := infoOf (before ++ mark w.limit after states) } ∧
      (w.sweep (fun core => .ok (event core)) (List.range' before.length after.length)).trips.foldl
          (fun final trip => final.set! trip.core trip.event) (eventsOf (before ++ after)).toArray =
        (eventsOf (before ++ mark w.limit after states)).toArray := by
  induction after generalizing before states w with
  | nil =>
    simp only [mark_nil, ← hinfo]
    exact ⟨rfl, rfl⟩
  | cons first after ih =>
    obtain ⟨s, states, rfl⟩ := List.exists_cons_of_length_eq_add_one hlen
    have hrest : ∀ m i (hi : i < states.length),
        event ((before ++ [m]).length + i) = states[i].trap := by
      intro m i hi
      have := hevent (i + 1) (by simpa using hi)
      rw [List.getElem_cons_succ] at this
      rw [← this]
      congr 1
      simp
      omega
    have hfirst : event before.length = s.trap := hevent 0 (by simp)
    have hlen' : states.length = after.length := by simpa using hlen
    rw [List.length_cons, List.range'_succ, sweep, isTrapped_eq hinfo]
    cases first with
    | some e =>
      have hinfo' : w.info = infoOf ((before ++ [some e]) ++ after) := by simpa using hinfo
      obtain ⟨hw, hf⟩ := ih hinfo' hlen' (hrest (some e))
      simpa using And.intro hw hf
    | none =>
      simp only [Option.isSome_none, Bool.false_eq_true, if_false, hfirst]
      by_cases hle : s.trap.instrs ≤ w.limit
      · have hinfo' : w.info = infoOf ((before ++ [none]) ++ after) := by simpa using hinfo
        obtain ⟨hw, hf⟩ := ih hinfo' hlen' (hrest none)
        simpa [hle, UInt64.not_lt.mpr hle] using And.intro hw hf
      · have hinfo' : (w.flag before.length s.trap).info =
            infoOf ((before ++ [some s.trap]) ++ after) := by
          simpa using flag_info hinfo s.trap
        obtain ⟨hw, hf⟩ := ih hinfo' hlen' (hrest (some s.trap))
        have hlimit : (w.flag before.length s.trap).limit = w.limit := rfl
        rw [if_neg hle, List.foldl_cons, flag_events]
        simpa [UInt64.not_le.mp hle, hlimit] using And.intro hw hf

/-- Every core has crossed the ceiling once every core has a mark. -/
theorem allTrapped_eq {limit : UInt64} (hlimit : limit ≠ 0) (marks : Marks) :
    allTrapped { limit, info := infoOf marks } = marks.all Option.isSome := by
  have hcount : allTrapped { limit, info := infoOf marks } = true ↔
      (marks.countP Option.isSome : Int) = marks.length := by
    simp [allTrapped, enabled, hlimit, cores, infoOf]
  rw [Bool.eq_iff_iff, hcount, List.all_eq_true, ← List.countP_eq_length]
  omega

end Watchdog

/-! ## Run control -/

/-- Where the run stands after `k` steps without an end. -/
structure Run.At (run : Run) (limit : UInt64) (k : Nat) (marks : Verdict.Marks) : Prop where
  outcome_eq : run.outcome = { steps := .ofNat k }
  watchdog_eq : run.watchdog = { limit, info := Verdict.infoOf marks }
  final_eq : run.final = (Verdict.eventsOf marks).toArray
  dumped_eq : run.dumped = false
  halted_eq : run.halted = false

theorem Run.At.isRunning {run : Run} {limit : UInt64} {k : Nat} {marks : Verdict.Marks}
    (hrun : run.At limit k marks) : run.isRunning = true := by
  simp [Run.isRunning, hrun.outcome_eq]

theorem Run.At.size {run : Run} {limit : UInt64} {k : Nat} {marks : Verdict.Marks}
    (hrun : run.At limit k marks) : run.final.size = marks.length := by
  simp [hrun.final_eq, Verdict.eventsOf]

/-- The run has ended as the verdict says, and everybody knows. -/
structure Run.Ended (run : Run) (v : Verdict) : Prop where
  outcome_eq : run.outcome = v.outcome
  info_eq : run.watchdog.info = v.info
  final_eq : run.final.toList = v.final
  dumped_eq : run.dumped = true
  halted_eq : run.halted = true
  isRunning_eq : run.isRunning = false

/-- Writing to one place after the other replaces what was there. -/
theorem foldl_set_range' (event : Nat → TrapEvent) (before after : List TrapEvent) :
    (List.range' before.length after.length).foldl
        (fun final core => final.set! core (event core)) (before ++ after).toArray =
      (before ++ (List.range' before.length after.length).map event).toArray := by
  induction after generalizing before with
  | nil => simp
  | cons old after ih =>
    have hset : (before ++ old :: after).toArray.set! before.length (event before.length) =
        ((before ++ [event before.length]) ++ after).toArray := by simp
    have hrest := ih (before ++ [event before.length])
    rw [List.length_append, List.length_singleton] at hrest
    rw [List.length_cons, List.range'_succ, List.foldl_cons, hset, hrest]
    simp

/-- Writing the event of every core gives the events of their states. -/
theorem foldl_set_states {event : Nat → TrapEvent} {states : List CoreState}
    {final : Array TrapEvent} (hsize : final.size = states.length)
    (hevent : ∀ i (hi : i < states.length), event i = states[i].trap) :
    (List.range states.length).foldl (fun final core => final.set! core (event core)) final =
      (states.map (·.trap)).toArray := by
  have hwrite := foldl_set_range' event [] final.toList
  simp only [List.nil_append, List.length_nil, Array.length_toList, hsize, Array.toArray_toList,
    ← List.range_eq_range'] at hwrite
  rw [hwrite]
  congr 1
  refine List.ext_getElem (by simp) fun i hi hi' => ?_
  simp [hevent i (by simpa using hi)]

namespace Session

variable {σ : Type} {s : Session σ}

/-- What a change of status does to a run that goes on. -/
theorem transition_eq (hrun : s.run.isRunning = true) (status : RunStatus) (code : Int)
    (cause : Cause) (failure : Option Error) :
    ∃ trace, (s.transition status code cause failure).run =
        { s.run with
          outcome :=
            { s.run.outcome with status, trapCode := code, cause := some cause, failure }
          halted := true
          trace } ∧
      (s.transition status code cause failure).oracle = s.oracle := by
  unfold transition
  rw [isRunning_iff] at hrun
  simp only [hrun, if_true]
  cases failure <;> exact ⟨_, rfl, rfl⟩

/-- One round of a loop that writes the event of a core, and otherwise only shows and
notes. -/
structure Writes {α : Type} (o : σ) (f : Session σ → α → Session σ) (core : α → Nat)
    (event : α → TrapEvent) : Prop where
  oracle_eq : ∀ s a, s.oracle = o → (f s a).oracle = o
  final_eq : ∀ s a, s.oracle = o → (f s a).run.final = s.run.final.set! (core a) (event a)
  dumped_eq : ∀ s a, (f s a).run.dumped = s.run.dumped
  decided_eq : ∀ s a, (f s a).decided = s.decided

/-- The whole loop writes the events one after the other. -/
theorem Writes.foldl {α : Type} {o : σ} {f : Session σ → α → Session σ} {core : α → Nat}
    {event : α → TrapEvent} (hf : Writes o f core event) (l : List α) (hs : s.oracle = o) :
    (l.foldl f s).oracle = o ∧
      (l.foldl f s).run.final = l.foldl (fun final a => final.set! (core a) (event a)) s.run.final ∧
      (l.foldl f s).run.dumped = s.run.dumped ∧ (l.foldl f s).run.outcome = s.run.outcome ∧
      (l.foldl f s).run.watchdog = s.run.watchdog ∧ (l.foldl f s).run.halted = s.run.halted := by
  have hdumped := foldl_keeps (fun t => t.run.dumped) hf.dumped_eq l s
  have hdecided := foldl_keeps decided hf.decided_eq l s
  simp only [decided, Prod.mk.injEq] at hdecided
  have hwritten : (l.foldl f s).oracle = o ∧
      (l.foldl f s).run.final =
        l.foldl (fun final a => final.set! (core a) (event a)) s.run.final := by
    clear hdumped hdecided
    induction l generalizing s with
    | nil => exact ⟨hs, rfl⟩
    | cons a l ih =>
      rw [List.foldl_cons, List.foldl_cons, ← hf.final_eq s a hs]
      exact ih (hf.oracle_eq s a hs)
  exact ⟨hwritten.1, hwritten.2, hdumped, hdecided.1, hdecided.2.1, hdecided.2.2.1⟩

variable [Oracle σ] {states : List CoreState}

section Showing

variable (hshow : ∀ (o : σ) (core : Nat), (Oracle.display o core).1 = o)

include hshow

theorem writes_dump (o : σ) :
    Writes o (fun s core => (s.setFinal core (Oracle.event s.oracle core)).present core) id
      (Oracle.event o) where
  oracle_eq := by
    rintro s core rfl
    exact hshow s.oracle core
  final_eq := by
    rintro s core rfl
    rfl
  dumped_eq := fun _ _ => rfl
  decided_eq := fun _ _ => rfl

theorem writes_noteTrap (o : σ) (code : Int) :
    Writes o (noteTrap code) id (Oracle.event o) where
  oracle_eq := by
    rintro s core rfl
    exact hshow s.oracle core
  final_eq := by
    rintro s core rfl
    rfl
  dumped_eq := fun _ _ => rfl
  decided_eq := decided_noteTrap code

theorem writes_noteTrip (o : σ) : Writes o noteTrip Trip.core Trip.event where
  oracle_eq := by
    rintro s trip rfl
    exact hshow s.oracle trip.core
  final_eq := fun _ _ _ => rfl
  dumped_eq := fun _ _ => rfl
  decided_eq := decided_noteTrip

/-- Showing the statistics keeps the events of the last step. -/
theorem dump_eq (hfresh : s.run.dumped = false) (hsize : s.run.final.size = states.length)
    (hevent : ∀ i (hi : i < states.length), Oracle.event s.oracle i = states[i].trap) :
    s.dump.oracle = s.oracle ∧ s.dump.run.final = (states.map (·.trap)).toArray ∧
      s.dump.run.dumped = true := by
  unfold dump
  rw [if_neg (by simp [hfresh]), Run.cores, hsize]
  have hstart : { s with run := { s.run with dumped := true } }.oracle = s.oracle := rfl
  obtain ⟨horacle, hfinal, hdumped, -⟩ := (writes_dump hshow s.oracle).foldl
    (List.range states.length) hstart
  exact ⟨horacle, hfinal.trans (foldl_set_states hsize hevent), hdumped⟩

/-- A trap ends the run with its code, and the events of that step are kept. -/
theorem endByTrap_eq (hrun : s.run.isRunning = true) (hsize : s.run.final.size = states.length)
    (hevent : ∀ i (hi : i < states.length), Oracle.event s.oracle i = states[i].trap) (code : Int) :
    (s.endByTrap code).oracle = s.oracle ∧
      (s.endByTrap code).run.outcome =
        (if code = trapGood then
          { s.run.outcome with status := .done, trapCode := code, cause := some .goodTrap,
                               failure := none }
        else
          { s.run.outcome with status := .failed, trapCode := code, cause := some .trapCode,
                               failure := some (.trapCode code) }) ∧
      (s.endByTrap code).run.watchdog = s.run.watchdog ∧
      (s.endByTrap code).run.final = (states.map (·.trap)).toArray ∧
      (s.endByTrap code).run.dumped = true ∧ (s.endByTrap code).run.halted = true := by
  have hstart : { s with run := { s.run with dumped := true } }.oracle = s.oracle := rfl
  obtain ⟨horacle, hfinal, hdumped, houtcome, hwatchdog, -⟩ :=
    (writes_noteTrap hshow s.oracle code).foldl (List.range states.length) hstart
  unfold endByTrap
  simp only [Run.cores, hsize]
  generalize (List.range states.length).foldl (noteTrap code)
    { s with run := { s.run with dumped := true } } = t at *
  have hgoing : t.run.isRunning = true := by
    simpa only [Run.isRunning, houtcome] using hrun
  have hevents : t.run.final = (states.map (·.trap)).toArray :=
    hfinal.trans (foldl_set_states hsize hevent)
  by_cases hgood : code = trapGood
  · obtain ⟨trace, hrun', horacle'⟩ := transition_eq hgoing .done code .goodTrap none
    simp only [if_pos hgood, hrun', horacle', houtcome, hwatchdog, hevents, hdumped, horacle]
    simp
  · obtain ⟨trace, hrun', horacle'⟩ :=
      transition_eq hgoing .failed code .trapCode (some (.trapCode code))
    simp only [if_neg hgood, hrun', horacle', houtcome, hwatchdog, hevents, hdumped, horacle]
    simp

variable {limit : UInt64} {k : Nat} {marks : Verdict.Marks}

/-- Sweeping over the cores and noting the trips marks the run. -/
theorem noteTrips_at (hrun : s.run.At limit k marks) (hlimit : limit ≠ 0)
    (hlen : states.length = marks.length)
    (hevent : ∀ i (hi : i < states.length), Oracle.event s.oracle i = states[i].trap)
    {sweep : Watchdog.Sweep}
    (hsweep : s.run.watchdog.check (fun core => .ok (Oracle.event s.oracle core)) = sweep) :
    (sweep.trips.foldl noteTrip
        { s with run := { s.run with watchdog := sweep.watchdog } }).oracle = s.oracle ∧
      (sweep.trips.foldl noteTrip
        { s with run := { s.run with watchdog := sweep.watchdog } }).run.At limit k
          (Verdict.mark limit marks states) := by
  obtain ⟨houtcome, hwatchdog, hevents, hfresh, hwaiting⟩ := hrun
  have henabled : s.run.watchdog.enabled = true := by
    simp [Watchdog.enabled, hwatchdog, hlimit]
  have hcores : s.run.watchdog.cores = marks.length := by
    simp [Watchdog.cores, hwatchdog, Verdict.infoOf]
  have hinfo : s.run.watchdog.info = Verdict.infoOf ([] ++ marks) := by
    rw [hwatchdog, List.nil_append]
  have hevent' : ∀ i (hi : i < states.length),
      Oracle.event s.oracle (([] : Verdict.Marks).length + i) = states[i].trap := by
    simpa using hevent
  obtain ⟨hmarks, htrips⟩ := Watchdog.sweep_eq hinfo hlen hevent'
  simp only [List.length_nil, List.nil_append, ← List.range_eq_range'] at hmarks htrips
  rw [Watchdog.check, if_pos henabled, hcores] at hsweep
  rw [hsweep] at hmarks htrips
  simp only [hwatchdog] at hmarks htrips
  have hstart : { s with run := { s.run with watchdog := sweep.watchdog } }.oracle = s.oracle := rfl
  obtain ⟨horacle, hfinal, hdumped, houtcome', hwatchdog', hhalted⟩ :=
    (writes_noteTrip hshow s.oracle).foldl sweep.trips hstart
  refine ⟨horacle, houtcome'.trans houtcome, hwatchdog'.trans hmarks, ?_, hdumped.trans hfresh,
    hhalted.trans hwaiting⟩
  rw [hfinal]
  simp only [hevents]
  exact htrips

/-- Looking for cores above the ceiling is one step of the verdict's marking. -/
theorem watch_eq (hrun : s.run.At limit k marks) (hlimit : limit ≠ 0)
    (hlen : states.length = marks.length)
    (hevent : ∀ i (hi : i < states.length), Oracle.event s.oracle i = states[i].trap) :
    s.watch.oracle = s.oracle ∧
      if (Verdict.mark limit marks states).all Option.isSome then
        s.watch.run.Ended
          { outcome := { status := .done, cause := some .instrLimit, steps := .ofNat k }
            info := Verdict.infoOf (Verdict.mark limit marks states)
            final := Verdict.eventsOf (Verdict.mark limit marks states) }
      else s.watch.run.At limit k (Verdict.mark limit marks states) := by
  have henabled : s.run.watchdog.enabled = true := by
    simp [Watchdog.enabled, hrun.watchdog_eq, hlimit]
  unfold watch
  simp only [henabled, if_true]
  generalize hsweep : s.run.watchdog.check (fun core => .ok (Oracle.event s.oracle core)) = sweep
  obtain ⟨horacle, hat⟩ := noteTrips_at hshow hrun hlimit hlen hevent hsweep
  generalize sweep.trips.foldl noteTrip
    { s with run := { s.run with watchdog := sweep.watchdog } } = t at *
  generalize Verdict.mark limit marks states = marks' at *
  have hall : t.run.watchdog.allTrapped = marks'.all Option.isSome := by
    rw [hat.watchdog_eq, Watchdog.allTrapped_eq hlimit]
  rw [hall]
  cases marks'.all Option.isSome with
  | false =>
    simp only [Bool.false_eq_true, if_false]
    exact ⟨horacle, hat⟩
  | true =>
    have hgoing : { t with run := { t.run with dumped := true } }.run.isRunning = true :=
      hat.isRunning
    obtain ⟨trace, hrun', horacle'⟩ := transition_eq hgoing .done trapRunning .instrLimit none
    simp only [if_true]
    refine ⟨horacle'.trans horacle, ?_⟩
    simp only [hrun']
    exact ⟨by simp [hat.outcome_eq], by simp [hat.watchdog_eq], by simp [hat.final_eq], rfl, rfl,
      rfl⟩

variable (golden : Nat → List CoreState) (last : List CoreState)

/-- A failure ends the run, and the events of the last step are kept. -/
theorem fail_eq (hrun : s.run.At limit k marks) (hlen : states.length = marks.length)
    (hevent : ∀ i (hi : i < states.length), Oracle.event s.oracle i = states[i].trap)
    (cause : Cause) (e : Error) :
    (s.transition .failed trapRunning cause (some e)).dump.oracle = s.oracle ∧
      (s.transition .failed trapRunning cause (some e)).dump.run.Ended
        { outcome :=
            { status := .failed, cause := some cause, failure := some e, steps := .ofNat k }
          info := Verdict.infoOf marks
          final := states.map (·.trap) } := by
  obtain ⟨trace, hrun', horacle⟩ := transition_eq hrun.isRunning .failed trapRunning cause (some e)
  have hdecided := decided_dump (s.transition .failed trapRunning cause (some e))
  generalize s.transition .failed trapRunning cause (some e) = t at *
  have hsize : t.run.final.size = states.length := by
    rw [hrun', hlen]
    exact hrun.size
  have hevent' : ∀ i (hi : i < states.length), Oracle.event t.oracle i = states[i].trap := by
    rw [horacle]
    exact hevent
  have hfresh : t.run.dumped = false := by
    rw [hrun']
    exact hrun.dumped_eq
  obtain ⟨horacle', hfinal, hdumped⟩ := dump_eq hshow hfresh hsize hevent'
  simp only [decided, Prod.mk.injEq, hrun'] at hdecided
  obtain ⟨houtcome, hwatchdog, hhalted, -⟩ := hdecided
  refine ⟨horacle'.trans horacle, ?_, ?_, ?_, hdumped, hhalted, ?_⟩
  · rw [houtcome, hrun.outcome_eq]
  · rw [hwatchdog, hrun.watchdog_eq]
  · rw [hfinal]
  · rw [Run.isRunning, houtcome]
    rfl

/-- The end of the stream ends the run. -/
theorem conclude_error (hrun : s.run.At limit k marks) (hlen : states.length = marks.length)
    (hevent : ∀ i (hi : i < states.length), Oracle.event s.oracle i = states[i].trap) :
    (s.conclude (.error (.streamEnded (.ofNat k))) false).oracle = s.oracle ∧
      (s.conclude (.error (.streamEnded (.ofNat k))) false).run.Ended
        (Verdict.judge golden limit k marks states []) := by
  have hsteps : s.run.outcome.steps + 1 = .ofNat (k + 1) := by
    rw [hrun.outcome_eq, UInt64.ofNat_add]
    rfl
  unfold conclude
  simp only [hrun.isRunning, Bool.not_true, Bool.false_eq_true, if_false, hsteps]
  exact fail_eq hshow hrun hlen hevent _ _

/-- An answer takes the run one step of the verdict further, or to its end. -/
theorem conclude_answer (hrun : s.run.At limit k marks) (hlen : states.length = marks.length)
    (hevent : ∀ i (hi : i < states.length), Oracle.event s.oracle i = states[i].trap)
    (htrap : Oracle.trapState s.oracle =
      match states.find? (·.trap.hasTrap) with
      | some state => (state.trap.code.toNat : Int)
      | none => trapRunning)
    (rest : List (List CoreState)) (cancelled : Bool) :
    (s.conclude (.ok (Verdict.mismatch golden k 0 states)) cancelled).oracle = s.oracle ∧
      ((s.conclude (.ok (Verdict.mismatch golden k 0 states)) cancelled).run.Ended
          (Verdict.judge golden limit k marks last (states :: rest)) ∨
        ∃ marks', marks'.length = marks.length ∧
          (s.conclude (.ok (Verdict.mismatch golden k 0 states)) cancelled).run.At limit (k + 1)
            marks' ∧
          Verdict.judge golden limit k marks last (states :: rest) =
            Verdict.judge golden limit (k + 1) marks' states rest) := by
  have hsteps : s.run.outcome.steps + 1 = .ofNat (k + 1) := by
    rw [hrun.outcome_eq, UInt64.ofNat_add]
    rfl
  unfold conclude
  simp only [hrun.isRunning, Bool.not_true, Bool.false_eq_true, if_false, hsteps]
  have hcounted : { s with run := { s.run with outcome :=
      { s.run.outcome with steps := .ofNat (k + 1) } } }.run.At limit (k + 1) marks :=
    ⟨by simp [hrun.outcome_eq], hrun.watchdog_eq, hrun.final_eq, hrun.dumped_eq, hrun.halted_eq⟩
  rw [Verdict.judge]
  cases hmismatch : Verdict.mismatch golden k 0 states with
  | true =>
    simp only [if_true]
    obtain ⟨horacle, hended⟩ := fail_eq hshow hcounted hlen hevent .mismatch
      (.mismatch (.ofNat (k + 1)))
    exact ⟨horacle, .inl hended⟩
  | false =>
    simp only [Bool.false_eq_true, if_false, htrap]
    cases hfind : states.find? (·.trap.hasTrap) with
    | some state =>
      have hcode : (state.trap.code.toNat : Int) ≠ trapRunning := by
        simp only [trapRunning]
        omega
      simp only [hcode, ne_eq, not_false_eq_true, if_true]
      obtain ⟨horacle, houtcome, hwatchdog, hfinal, hdumped, hhalted⟩ :=
        endByTrap_eq hshow hcounted.isRunning (hcounted.size.trans hlen.symm) hevent
          (state.trap.code.toNat : Int)
      refine ⟨horacle, .inl ⟨?_, ?_, ?_, hdumped, hhalted, ?_⟩⟩
      · rw [houtcome]
        simp only [Verdict.trapped]
      · rw [hwatchdog, hrun.watchdog_eq]
      · rw [hfinal]
      · rw [Run.isRunning, houtcome]
        split <;> rfl
    | none =>
      simp only [ne_eq, not_true_eq_false, if_false]
      by_cases hlimit : limit = 0
      · have hidle : s.run.watchdog.enabled = false := by
          simp [Watchdog.enabled, hrun.watchdog_eq, hlimit]
        simp only [watch, hidle, Bool.false_eq_true, if_false, if_pos hlimit]
        exact ⟨trivial, .inr ⟨marks, rfl, hcounted, rfl⟩⟩
      · obtain ⟨horacle, hwatch⟩ := watch_eq hshow hcounted hlimit hlen hevent
        refine ⟨horacle, ?_⟩
        simp only [hlimit, if_false]
        split at hwatch
        · rename_i hall
          rw [if_pos hall]
          exact .inl hwatch
        · rename_i hall
          rw [if_neg hall]
          exact .inr ⟨_, by simp [Verdict.mark, hlen], hwatch, rfl⟩

end Showing

end Session

end Cosim

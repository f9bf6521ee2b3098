import Cosim.Proofs.Sections
import Cosim.Proofs.Watchdog
import Cosim.Script
import Mathlib.Data.List.Induction

/-!
# The trace tells the story of the run

A traced run notes its end, the cores at the trap that ended it, and every core that
crosses the instruction ceiling.  The records are written by several critical sections,
some before and some after the change that they describe.

* `Outcome.transitions` and `Run.traps` are the records that a trace should hold,
  read off the run.
* `Crossing` is a trip with the exact number of its step; the counter in the records is 64
  bits wide.  `Watchdog.Found` ties the crossings to the flags.
* `Run.Told` says that the trace holds these records, and `Run.Told.change` that it stays
  so in every critical section.
* `Control.trace_tells` is the main statement.
-/

namespace Cosim

/-! ## What a trace should hold -/

/-- The change of status of a run that has ended. -/
def Outcome.transitions (o : Outcome) : List TransitionRecord :=
  if o.status = .running then []
  else
    [{ step := o.steps
       source := RunStatus.running.name
       target := o.status.name
       trapCode := o.trapCode
       cause := o.causeName
       failure := (o.failure.map Error.message).getD "" }]

/-- A trap ended the run. -/
def Outcome.isTrap (o : Outcome) : Bool := o.cause == some .goodTrap || o.cause == some .trapCode

/-- The cores at the trap that ended the run, in order. -/
def Run.traps (r : Run) : List TrapRecord :=
  if r.outcome.isTrap then
    (List.range r.cores).map fun core =>
      (r.final.getD core {}).record r.outcome.steps r.outcome.trapCode core
  else []

/-- A trip, with the number of the step in which it was found. -/
structure Crossing where
  step : Nat
  trip : Trip

namespace Crossing

/-- Crossings come in the order of their steps and, within a step, of their cores. -/
def Precedes (a b : Crossing) : Prop :=
  a.step < b.step ∨ a.step = b.step ∧ a.trip.core < b.trip.core

/-- What is noted about a crossing. -/
def record (c : Crossing) : WatchdogRecord := c.trip.record (.ofNat c.step)

end Crossing

/-! ## Crossings and flags -/

/-- The watchdog has flagged the cores of these crossings, each once. -/
structure Watchdog.Found (w : Watchdog) (found : List Crossing) : Prop where
  count_eq : w.info.count = found.length
  flagged : ∀ core, w.isTrapped core = true ↔ core ∈ found.map (·.trip.core)
  nodup : (found.map (·.trip.core)).Nodup
  cpi_size : w.info.cpi.size = w.cores
  cpi_eq : ∀ c ∈ found, w.info.cpi[c.trip.core]? = some c.trip.cpi

namespace Watchdog

variable {w : Watchdog} {found : List Crossing} {core n : Nat} {event : TrapEvent}
  {events : Nat → Except Fault TrapEvent}

theorem Found.flag (h : w.Found found) (hfree : w.isTrapped core = false) (hcore : core < w.cores) :
    (w.flag core event).Found (found ++ [⟨n, { core, event, cpi := event.cpi }⟩]) := by
  have hnew : core ∉ found.map (·.trip.core) := by
    rw [← h.flagged, hfree]
    simp
  refine ⟨?_, fun other => ?_, ?_, ?_, fun c hc => ?_⟩
  · rw [count_flag, h.count_eq]
    simp
  · rw [isTrapped_flag hcore, Bool.or_eq_true, h.flagged]
    simp
  · rw [List.map_append, List.nodup_append]
    refine ⟨h.nodup, by simp, ?_⟩
    rintro a ha b hb rfl
    obtain rfl : a = core := by simpa using hb
    exact hnew ha
  · rw [cores_flag, ← h.cpi_size]
    simp [Watchdog.flag]
  · rw [List.mem_append, List.mem_singleton] at hc
    rcases hc with hold | rfl
    · have hne : core ≠ c.trip.core := by
        rintro rfl
        exact hnew (List.mem_map_of_mem hold)
      simp only [Watchdog.flag, Array.set!_eq_setIfInBounds]
      rw [Array.getElem?_setIfInBounds_ne hne]
      exact h.cpi_eq c hold
    · simp [Watchdog.flag, h.cpi_size, hcore]

theorem Found.check (h : w.Found found) (hon : w.enabled = true) :
    (w.check events).watchdog.Found (found ++ (w.check events).trips.map (Crossing.mk n)) := by
  refine check_keeps (P := fun v trips => v.Found (found ++ trips.map (Crossing.mk n))) ?_ hon
    (by simpa using h)
  intro v trips core event hv hfree hcore _ _
  rw [List.map_append, ← List.append_assoc]
  exact hv.flag hfree hcore

/-- The trips of one check come in the order of their cores. -/
theorem check_sorted (hon : w.enabled = true) :
    ((w.check events).trips.map (Crossing.mk n)).Pairwise Crossing.Precedes := by
  have hcores : ((w.check events).trips.map Trip.core).Pairwise (· < ·) := by
    rw [check_eq hon]
    exact List.pairwise_lt_range.sublist (sweep_sublist w events _)
  rw [List.pairwise_map] at hcores ⊢
  exact hcores.imp fun hlt => .inr ⟨rfl, hlt⟩

/-- At the start no crossing has been found. -/
theorem found_create {limit : UInt64} {cores : Int} (hcreate : create limit cores = .ok w) :
    w.Found [] := by
  obtain ⟨htallied, -, -, -, hsize, hfree⟩ := tallied_create hcreate
  refine ⟨?_, by simp [hfree], by simp, hsize, by simp⟩
  rw [htallied, List.length_nil, Int.natCast_inj, List.count_eq_zero]
  intro htrue
  obtain ⟨core, hcore, hget⟩ := List.mem_iff_getElem.mp htrue
  have hflag := hfree core
  rw [Array.length_toList] at hcore
  simp [isTrapped, Array.getD_eq_getD_getElem?, hcore] at hflag
  simp [hflag] at hget

end Watchdog

/-! ## The trace of a run -/

/-- The trace tells the story of a run of so many steps, in which these crossings were
found. -/
structure Run.Told (cores n : Nat) (found : List Crossing) (t : Trace) (r : Run) : Prop where
  trace_eq : r.trace = some t
  cores_eq : r.cores = cores
  steps_eq : r.outcome.steps = .ofNat n
  undecided : r.isRunning = true → r.outcome.cause = none
  transitions_eq : t.transitions = r.outcome.transitions
  traps_eq : t.traps = r.traps
  /-- The events that the records of a trap were taken from stay. -/
  shown : r.outcome.isTrap = true → r.dumped = true
  trips_eq : t.trips = found.map Crossing.record
  flags : r.watchdog.Found found
  sorted : found.Pairwise Crossing.Precedes
  reached : ∀ c ∈ found, c.step ≤ n

namespace Run

variable {σ : Type} [Oracle σ] {r r' : Run} {cores n k : Nat} {found : List Crossing} {t : Trace}

theorem traps_of_not_isTrap (h : r.outcome.isTrap = false) : r.traps = [] := by
  simp [traps, h]

/-- An end is noted with everything that the outcome says. -/
theorem transitions_close (hrun : r.isRunning = true) {status : RunStatus}
    (hstatus : status ≠ .running) (code : Int) (cause : Cause) (failure : Option Error) :
    (r.close status code cause failure).outcome.transitions =
      [r.endRecord status code cause failure] := by
  simp [Outcome.transitions, close, endRecord, hstatus, status_of_isRunning hrun, Outcome.causeName]

theorem cores_noteTrips (r : Run) (sweep : Watchdog.Sweep) :
    (r.noteTrips sweep).cores = r.cores := by
  have hsize : ∀ (trips : List Trip) (final : Array TrapEvent),
      (trips.foldl (fun final trip => final.set! trip.core trip.event) final).size =
        final.size := by
    intro trips
    induction trips with
    | nil => exact fun final => rfl
    | cons trip trips ih =>
      intro final
      rw [List.foldl_cons, ih]
      simp
  exact hsize _ _

/-- Records by position are records by core. -/
theorem trapRecords_eq (r : Run) (code : Int) (events : List TrapEvent) :
    r.trapRecords code events =
      (List.range events.length).map fun core =>
        (events.toArray.getD core {}).record r.outcome.steps code core := by
  apply List.ext_getElem
  · simp [trapRecords]
  · intro i hi _
    have hlt : i < events.length := by simpa [trapRecords] using hi
    simp [trapRecords, Array.getD_eq_getD_getElem?, hlt]

namespace Told

theorem not_isTrap (h : r.Told cores n found t) (hrun : r.isRunning = true) :
    r.outcome.isTrap = false := by
  simp [Outcome.isTrap, h.undecided hrun]

/-- Nothing but crossings is noted while the run goes on. -/
theorem unended (h : r.Told cores n found t) (hrun : r.isRunning = true) :
    t.transitions = [] ∧ t.traps = [] := by
  refine ⟨?_, by rw [h.traps_eq, traps_of_not_isTrap (h.not_isTrap hrun)]⟩
  rw [h.transitions_eq, Outcome.transitions, if_pos (status_of_isRunning hrun)]

theorem count (h : r.Told cores n found t) (hrun : r.isRunning = true) :
    r.count.Told cores (n + 1) found t where
  trace_eq := h.trace_eq
  cores_eq := h.cores_eq
  steps_eq := by
    rw [UInt64.ofNat_add, ← h.steps_eq]
    rfl
  undecided := h.undecided
  transitions_eq := by
    rw [(h.unended hrun).1]
    exact (if_pos (status_of_isRunning hrun)).symm
  traps_eq := by
    rw [(h.unended hrun).2]
    exact (traps_of_not_isTrap (r := r.count) (h.not_isTrap hrun)).symm
  shown := h.shown
  trips_eq := h.trips_eq
  flags := h.flags
  sorted := h.sorted
  reached := fun c hc => Nat.le_succ_of_le (h.reached c hc)

/-- Showing the statistics of a run that no trap has ended. -/
theorem showing (h : r.Told cores n found t) (hfree : r.outcome.isTrap = false)
    {final : Array TrapEvent} (hsize : final.size = r.final.size) :
    { r with dumped := true, final }.Told cores n found t where
  trace_eq := h.trace_eq
  cores_eq := hsize.trans h.cores_eq
  steps_eq := h.steps_eq
  undecided := h.undecided
  transitions_eq := h.transitions_eq
  traps_eq := by
    rw [h.traps_eq, traps_of_not_isTrap hfree]
    exact (traps_of_not_isTrap (r := { r with dumped := true, final }) hfree).symm
  shown := fun _ => rfl
  trips_eq := h.trips_eq
  flags := h.flags
  sorted := h.sorted
  reached := h.reached

/-- An end that no trap makes. -/
theorem close (h : r.Told cores n found t) (hrun : r.isRunning = true) (status : RunStatus)
    (hstatus : status ≠ .running) (code : Int) (cause : Cause) (failure : Option Error)
    (hcause : (cause == .goodTrap || cause == .trapCode) = false) :
    (r.close status code cause failure).outcome.isTrap = false ∧
      ∃ t', (r.close status code cause failure).Told cores n found t' := by
  have hfree : (r.close status code cause failure).outcome.isTrap = false := by
    simpa [Outcome.isTrap, Run.close] using hcause
  refine ⟨hfree, t.recordTransition (r.endRecord status code cause failure), ?_, h.cores_eq,
    h.steps_eq, ?_, ?_, ?_, ?_, h.trips_eq, h.flags, h.sorted, h.reached⟩
  · rw [Run.close, h.trace_eq]
    rfl
  · rw [isRunning_close hstatus]
    exact fun hgoing => by cases hgoing
  · rw [transitions_close hrun hstatus, Trace.recordTransition, (h.unended hrun).1]
    rfl
  · rw [traps_of_not_isTrap hfree]
    exact (h.unended hrun).2
  · rw [hfree]
    exact fun htrap => by cases htrap

/-- The end that a trap makes. -/
theorem trap (h : r.Told cores n found t) (hrun : r.isRunning = true) (code : Int)
    {events : List TrapEvent} (hlength : events.length = cores) {status : RunStatus}
    (hstatus : status ≠ .running) {cause : Cause} (failure : Option Error)
    (hcause : (cause == .goodTrap || cause == .trapCode) = true) :
    ∃ t', ((r.noteTraps code events).close status code cause failure).Told cores n found t' := by
  have htrap :
      ((r.noteTraps code events).close status code cause failure).outcome.isTrap = true := by
    simpa [Outcome.isTrap, Run.close] using hcause
  refine ⟨{ t with traps := t.traps ++ r.trapRecords code events }.recordTransition
    (r.endRecord status code cause failure), ?_, ?_, h.steps_eq, ?_, ?_, ?_, fun _ => rfl,
    h.trips_eq, h.flags, h.sorted, h.reached⟩
  · rw [Run.close, noteTraps, h.trace_eq]
    rfl
  · simpa [Run.close, noteTraps, Run.cores] using hlength
  · rw [isRunning_close hstatus]
    exact fun hgoing => by cases hgoing
  · rw [transitions_close (r := r.noteTraps code events) hrun hstatus, Trace.recordTransition,
      (h.unended hrun).1]
    rfl
  · rw [traps, if_pos htrap]
    show t.traps ++ r.trapRecords code events = _
    rw [(h.unended hrun).2, List.nil_append, trapRecords_eq]
    simp [Run.close, noteTraps, Run.cores]

/-- The cores that a check finds above the ceiling are noted with the step at hand. -/
theorem noteTrips (h : r.Told cores n found t) (hrun : r.isRunning = true)
    (hearlier : ∀ c ∈ found, c.step < n) (hon : r.watchdog.enabled = true)
    (events : Nat → Except Fault TrapEvent) :
    ∃ t', (r.noteTrips (r.watchdog.check events)).Told cores n
      (found ++ (r.watchdog.check events).trips.map (Crossing.mk n)) t' := by
  have hfree := h.not_isTrap hrun
  let sweep := r.watchdog.check events
  refine ⟨{ t with trips := t.trips ++ sweep.trips.map (·.record r.outcome.steps) }, ?_, ?_,
    h.steps_eq, h.undecided, h.transitions_eq, ?_, ?_, ?_, h.flags.check hon, ?_, ?_⟩
  · rw [Run.noteTrips, h.trace_eq]
    rfl
  · exact (r.cores_noteTrips _).trans h.cores_eq
  · show t.traps = _
    rw [(h.unended hrun).2]
    exact (traps_of_not_isTrap (r := r.noteTrips sweep) hfree).symm
  · exact fun htrap => by simp [Run.noteTrips, hfree] at htrap
  · show t.trips ++ _ = _
    rw [h.trips_eq, List.map_append, List.map_map, h.steps_eq]
    rfl
  · rw [List.pairwise_append]
    refine ⟨h.sorted, Watchdog.check_sorted hon, fun a ha b hb => .inl ?_⟩
    obtain ⟨trip, -, rfl⟩ := List.mem_map.mp hb
    exact hearlier a ha
  · intro c hc
    rcases List.mem_append.mp hc with hold | hnew
    · exact h.reached c hold
    · obtain ⟨trip, -, rfl⟩ := List.mem_map.mp hnew
      exact Nat.le_refl n

/-- In every critical section the trace goes on telling the story. -/
theorem change (h : r.Told cores n found t) (hchange : r.Change σ k r') :
    ∃ found' t', r'.Told cores (n + k) found' t' := by
  have hearlier : ∀ c ∈ found, c.step < n + 1 := fun c hc => Nat.lt_succ_of_le (h.reached c hc)
  cases hchange with
  | rest => exact ⟨found, t, h⟩
  | shown final hend hfresh hsize =>
    have hfree : r.outcome.isTrap = false := by
      refine Bool.eq_false_iff.mpr fun htrap => ?_
      simp [h.shown htrap] at hfresh
    exact ⟨found, t, h.showing hfree hsize⟩
  | aborted e hrun =>
    obtain ⟨-, t', ht'⟩ := h.close hrun .failed (by simp) trapRunning .fatal
      (some (.fatal none e)) rfl
    exact ⟨found, t', ht'⟩
  | failed e final hrun hsize =>
    obtain ⟨hfree, t', ht'⟩ := h.close hrun .failed (by simp) trapRunning .fatal
      (some (.fatal (some (r.outcome.steps + 1)) e)) rfl
    exact ⟨found, t', ht'.showing hfree hsize⟩
  | mismatched final hrun hsize =>
    obtain ⟨hfree, t', ht'⟩ := (h.count hrun).close hrun .failed (by simp) trapRunning .mismatch
      (some (.mismatch (r.outcome.steps + 1))) rfl
    exact ⟨found, t', ht'.showing hfree hsize⟩
  | trapped oracle events hrun hcode hlength =>
    refine ⟨found, ?_⟩
    unfold closeByTrap
    split
    · exact (h.count hrun).trap hrun _ (hlength.trans h.cores_eq) (by simp) _ rfl
    · exact (h.count hrun).trap hrun _ (hlength.trans h.cores_eq) (by simp) _ rfl
  | passed hrun hoff => exact ⟨found, t, h.count hrun⟩
  | watched event hrun hon hsome => exact ⟨_, (h.count hrun).noteTrips hrun hearlier hon _⟩
  | limited event hrun hon hall =>
    obtain ⟨t', ht'⟩ := (h.count hrun).noteTrips hrun hearlier hon
      fun core => .ok (event core)
    have hshown := ht'.showing (ht'.not_isTrap hrun) rfl
    obtain ⟨-, t'', ht''⟩ := hshown.close hrun .done (by simp) trapRunning .instrLimit none rfl
    exact ⟨_, t'', ht''⟩

end Told

/-- A traced run begins with an empty trace. -/
theorem told_create {limit : UInt64} {cores : Int}
    (hcreate : Run.create limit cores (Trace.create "events") = .ok r) :
    r.Told cores.toNat 0 [] { level := "events" } := by
  obtain ⟨w, hw, rfl⟩ := Run.create_eq_ok hcreate
  refine ⟨rfl, by simp [Run.cores], rfl, fun _ => rfl, rfl, rfl, ?_, rfl,
    Watchdog.found_create hw, .nil, by simp⟩
  exact fun htrap => by cases htrap

end Run

/-! ## What the trace says -/

/-- The trace and its summary say what the run says. -/
structure Trace.Tells (t : Trace) (r : Run) : Prop where
  unended_iff : t.transitions = [] ↔ r.outcome.status = .running
  transitions_eq : t.transitions = r.outcome.transitions
  traps_eq : t.traps = r.traps
  /-- One record for each flagged core, and no other record. -/
  trip_once : (t.trips.map (·.core)).Nodup
  trip_iff : ∀ core : Nat, (core : Int) ∈ t.trips.map (·.core) ↔ r.watchdog.isTrapped core = true
  trip_cpi : ∀ trip ∈ t.trips, ∃ core : Nat,
    trip.core = core ∧ r.watchdog.info.cpi[core]? = some trip.cpi
  tripCount_eq : t.summarize.watchdogTrips = r.watchdog.info.count
  finalStatus_eq : t.summarize.finalStatus = if r.isRunning then "" else r.outcome.status.name
  finalCause_eq : t.summarize.finalCause = if r.isRunning then "" else r.outcome.causeName

/-- The trips of a trace in the order of their steps and, within a step, of their cores.
The words in the records can be compared as long as the counter of steps has not
overflowed. -/
structure Trace.InOrder (t : Trace) (r : Run) (n : Nat) (found : List Crossing) : Prop where
  steps_eq : r.outcome.steps = .ofNat n
  trips_eq : t.trips = found.map Crossing.record
  sorted : found.Pairwise Crossing.Precedes
  reached : ∀ c ∈ found, c.step ≤ n
  sorted_words : n < UInt64.size →
    t.trips.Pairwise fun a b => a.step < b.step ∨ a.step = b.step ∧ a.core < b.core
  reached_words : n < UInt64.size → ∀ trip ∈ t.trips, trip.step ≤ r.outcome.steps
  lastTripStep_eq : n < UInt64.size →
    t.summarize.lastTripStep = (t.trips.getLast?.map (·.step)).getD 0

/-- In a list sorted by step the last step is the greatest. -/
theorem Trace.lastTripStep_of_sorted (t : Trace)
    (h : t.trips.Pairwise fun a b => a.step ≤ b.step) :
    t.summarize.lastTripStep = (t.trips.getLast?.map (·.step)).getD 0 := by
  simp only [Trace.summarize]
  generalize t.trips = trips at h
  induction trips using List.reverseRecOn with
  | nil => rfl
  | append_singleton trips trip ih =>
    rw [List.pairwise_append] at h
    obtain ⟨hbefore, -, hle⟩ := h
    simp only [List.foldl_append, List.foldl_cons, List.foldl_nil, ih hbefore,
      List.getLast?_concat, Option.map_some, Option.getD_some]
    split
    · rfl
    · rename_i hlow
      -- The step before is at most this one, and not less.
      rw [UInt64.not_lt] at hlow
      refine UInt64.le_antisymm ?_ hlow
      cases hlast : trips.getLast? with
      | none => exact UInt64.zero_le
      | some last => exact hle last (List.mem_of_getLast? hlast) trip (by simp)

namespace Run.Told

variable {r : Run} {cores n : Nat} {found : List Crossing} {t : Trace}

theorem tells (h : r.Told cores n found t) : t.Tells r where
  unended_iff := by
    rw [h.transitions_eq, Outcome.transitions]
    split <;> simp_all
  transitions_eq := h.transitions_eq
  traps_eq := h.traps_eq
  trip_once := by
    rw [h.trips_eq, List.map_map, List.Nodup, List.pairwise_map]
    refine (List.pairwise_map.mp h.flags.nodup).imp fun hne hsame => hne ?_
    exact Int.ofNat_inj.mp hsame
  trip_iff := by
    intro core
    rw [h.flags.flagged, h.trips_eq, List.map_map]
    simp only [List.mem_map, Function.comp_apply, Crossing.record, Trip.record, Int.natCast_inj]
  trip_cpi := by
    intro trip htrip
    rw [h.trips_eq] at htrip
    obtain ⟨c, hc, rfl⟩ := List.mem_map.mp htrip
    exact ⟨c.trip.core, rfl, h.flags.cpi_eq c hc⟩
  tripCount_eq := by
    rw [h.flags.count_eq]
    simp [Trace.summarize, h.trips_eq]
  finalStatus_eq := by
    simp only [Trace.summarize, h.transitions_eq, Outcome.transitions, isRunning]
    split <;> simp_all
  finalCause_eq := by
    simp only [Trace.summarize, h.transitions_eq, Outcome.transitions, isRunning]
    split <;> simp_all

/-- Before an overflow words compare as numbers do. -/
theorem record_lt_iff {a b : Crossing} (hsmall : n < UInt64.size) (ha : a.step ≤ n)
    (hb : b.step ≤ n) :
    (a.record.step < b.record.step ↔ a.step < b.step) ∧
      (a.record.step = b.record.step ↔ a.step = b.step) := by
  have hnat : ∀ c : Crossing, c.step ≤ n → c.record.step.toNat = c.step := by
    intro c hc
    exact UInt64.toNat_ofNat_of_lt' (by omega)
  rw [UInt64.lt_iff_toNat_lt, ← UInt64.toNat_inj, hnat a ha, hnat b hb]
  exact ⟨Iff.rfl, Iff.rfl⟩

theorem inOrder (h : r.Told cores n found t) : t.InOrder r n found := by
  have hwords : n < UInt64.size →
      t.trips.Pairwise fun a b => a.step < b.step ∨ a.step = b.step ∧ a.core < b.core := by
    intro hsmall
    rw [h.trips_eq, List.pairwise_map]
    refine h.sorted.imp_of_mem fun {a b} ha hb hab => ?_
    obtain ⟨hlt, heq⟩ := record_lt_iff hsmall (h.reached a ha) (h.reached b hb)
    rw [hlt, heq]
    exact hab.imp_right fun hsame => ⟨hsame.1, Int.ofNat_lt.mpr hsame.2⟩
  refine ⟨h.steps_eq, h.trips_eq, h.sorted, h.reached, hwords, ?_, fun hsmall => ?_⟩
  · intro hsmall trip htrip
    rw [h.trips_eq] at htrip
    obtain ⟨c, hc, rfl⟩ := List.mem_map.mp htrip
    have hreached := h.reached c hc
    rw [h.steps_eq, Crossing.record, Trip.record, UInt64.le_iff_toNat_le,
      UInt64.toNat_ofNat_of_lt' (by omega), UInt64.toNat_ofNat_of_lt' hsmall]
    exact hreached
  · refine t.lastTripStep_of_sorted ((hwords hsmall).imp ?_)
    intro a b hab
    rcases hab with hlt | ⟨heq, -⟩
    · exact UInt64.le_of_lt hlt
    · exact UInt64.le_of_eq heq

end Run.Told

/-! ## Every reachable run -/

namespace Control

variable {σ : Type} [Oracle σ] {c c' : Control σ}

/-- The trace tells the story in every state that can be reached, and no step is counted
that the oracle has not begun. -/
theorem told_of_reach {cores n : Nat} {found : List Crossing} {t : Trace}
    (hreach : Reach c c') (h : c.session.run.Told cores n found t)
    (hcalls : n + underWay c.position ≤ c.calls) :
    ∃ n' found' t', c'.session.run.Told cores n' found' t' ∧
      n' + underWay c'.position ≤ c'.calls := by
  induction hreach with
  | refl => exact ⟨n, found, t, h, hcalls⟩
  | tail _ hmove ih =>
    obtain ⟨n₁, found₁, t₁, h₁, hcalls₁⟩ := ih
    obtain ⟨k, hchange, hk⟩ := hmove.change
    obtain ⟨found₂, t₂, h₂⟩ := h₁.change hchange
    exact ⟨n₁ + k, found₂, t₂, h₂, by omega⟩

/-- Whatever the oracle says and however steps, aborts and shows of statistics come between
one another, the trace of the run tells the same story as the run: its end, the cores at
the trap that ended it, and every crossing of the ceiling, in order. -/
theorem trace_tells (limit : UInt64) (cores : Int) (oracle : σ) (run : Run)
    (hrun : Run.create limit cores (Trace.create "events") = .ok run) (c : Control σ)
    (hreach : Reach { session := { run, oracle } } c) :
    ∃ (t : Trace) (n : Nat) (found : List Crossing),
      c.session.run.trace = some t ∧ c.session.run.cores = cores.toNat ∧ n ≤ c.calls ∧
        t.Tells c.session.run ∧ t.InOrder c.session.run n found := by
  obtain ⟨n, found, t, h, hcalls⟩ := told_of_reach hreach (Run.told_create hrun) (Nat.le_refl 0)
  exact ⟨t, n, found, h.trace_eq, h.cores_eq, by omega, h.tells, h.inOrder⟩

/-- Core 1 crosses the ceiling in the first step.  In the second step core 0 would too, but
the design traps there, and an abort comes too late. -/
theorem trace_tells_trip_then_trap :
    ∃ (run : Run) (c : Control Script) (t : Trace) (n : Nat) (found : List Crossing),
      Run.create 1 2 (Trace.create "events") = .ok run ∧
      Reach
        { session :=
            { run
              oracle :=
                { cues :=
                    [{ events := some #[{}, { instrs := 5 }] },
                      { events := some #[{ instrs := 7 }, { instrs := 9 }]
                        state := some 0 }] } } } c ∧
      c.session.run.trace = some t ∧ t.trips.map (fun trip => (trip.step, trip.core)) = [(1, 1)] ∧
      t.traps.map (fun trap => (trap.step, trap.core, trap.instrs)) = [(2, 0, 7), (2, 1, 9)] ∧
      t.transitions.map (·.cause) = ["good-trap"] ∧
      t.Tells c.session.run ∧ t.InOrder c.session.run n found := by
  let run : Run :=
    { watchdog := { limit := 1, info := { trapped := #[false, false], cpi := #[0, 0] } }
      trace := some { level := "events" }
      final := #[{}, {}] }
  let script : Script :=
    { cues :=
        [{ events := some #[{}, { instrs := 5 }] },
          { events := some #[{ instrs := 7 }, { instrs := 9 }], state := some 0 }] }
  have hrun : Run.create 1 2 (Trace.create "events") = .ok run := rfl
  obtain ⟨calls, hsteps⟩ := reach_steps 2 false { run, oracle := script } 0
  have hnotes : ((({ run, oracle := script } : Session Script).steps 2 false).1.abort
      (.text "worker failed")).run.trace.map (fun t =>
        (t.trips.map (fun trip => (trip.step, trip.core)),
          t.traps.map (fun trap => (trap.step, trap.core, trap.instrs)),
          t.transitions.map (·.cause))) =
      some ([(1, 1)], [(2, 0, 7), (2, 1, 9)], ["good-trap"]) := by
    decide +kernel
  -- What the steps return is not evaluated again.
  generalize ({ run, oracle := script } : Session Script).steps 2 false = returned at hsteps hnotes
  have hreach := hsteps.tail (.abort (.text "worker failed"))
  obtain ⟨t, n, found, ht, -, -, htells, horder⟩ := trace_tells 1 2 script run hrun _ hreach
  have hlate : (returned.1.abort (.text "worker failed")).run.trace = some t := ht
  rw [hlate, Option.map_some, Option.some.injEq, Prod.mk.injEq, Prod.mk.injEq] at hnotes
  exact ⟨run, _, t, n, found, hrun, hreach, ht, hnotes.1, hnotes.2.1, hnotes.2.2, htells, horder⟩

end Control

end Cosim

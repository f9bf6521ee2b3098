import Cosim.Proofs.Chronicle
import Cosim.Proofs.Endings

/-!
# What a run keeps of each core

A run keeps one event for each core.  Three places write it: the check for crossings, the
trap that ends the run, and the show of all statistics at the end.  The show happens once.

* `Oracle.survey` is what an oracle says about the cores when each is asked about and then
  shown; a display may change what the oracle says about the next core.
* `Session.Consequence` lists what drawing the consequences of an answer comes to.
* `Session.Keeps` says what a critical section does to the events: nothing, a survey of all
  cores, or the crossings of a check.
* `Run.Filed` ties the events to the flags and to the end of the run, and `Run.Filed.change`
  says that critical sections keep it.
-/

namespace Cosim

/-- A way from `start` to `last` on which the step from `before` to `after` is taken. -/
def Passes {α : Type} (R : α → α → Prop) (start before after last : α) : Prop :=
  Relation.ReflTransGen R start before ∧ R before after ∧ Relation.ReflTransGen R after last

/-- On the way to something new there is a step that brings it. -/
theorem exists_passes {α : Type} {R : α → α → Prop} {start last : α}
    (hway : Relation.ReflTransGen R start last) {f : α → Bool} (hstart : f start = false)
    (hlast : f last = true) :
    ∃ before after, Passes R start before after last ∧ f before = false ∧ f after = true := by
  induction hway with
  | refl => simp [hstart] at hlast
  | @tail b c hway hstep ih =>
    cases hb : f b with
    | false => exact ⟨b, c, ⟨hway, hstep, .refl⟩, hb, hlast⟩
    | true =>
      obtain ⟨before, after, ⟨hto, hturn, hfrom⟩, hfalse, htrue⟩ := ih hb
      exact ⟨before, after, ⟨hto, hturn, hfrom.tail hstep⟩, hfalse, htrue⟩

/-- What an oracle says about cores when each is asked about and then shown, one after the
other. -/
def Oracle.survey {σ : Type} [Oracle σ] (o : σ) : List Nat → List TrapEvent
  | [] => []
  | core :: rest => Oracle.event o core :: survey (Oracle.display o core).1 rest

/-- A display that changes nothing about the events makes no difference to a survey. -/
theorem Oracle.survey_eq_map {σ : Type} [Oracle σ]
    (hsame : ∀ (o : σ) shown core,
      Oracle.event (Oracle.display o shown).1 core = Oracle.event o core)
    (o : σ) (l : List Nat) : Oracle.survey o l = l.map (Oracle.event o) := by
  induction l generalizing o with
  | nil => rfl
  | cons core rest ih =>
    have htail : Oracle.event (Oracle.display o core).1 = Oracle.event o := funext (hsame o core)
    rw [Oracle.survey, ih, htail, List.map_cons]

namespace Session

variable {σ : Type} [Oracle σ] {s : Session σ}

/-! ## Loops that ask and show -/

/-- One round of a loop that keeps what the oracle says about a core and shows the core. -/
structure Surveys (f : Session σ → Nat → Session σ) : Prop where
  final_eq : ∀ s core, (f s core).run.final = s.run.final.set! core (Oracle.event s.oracle core)
  oracle_eq : ∀ s core, (f s core).oracle = (Oracle.display s.oracle core).1

theorem Surveys.foldl_range' {f : Session σ → Nat → Session σ} (hf : Surveys f)
    (before after : List TrapEvent) (hfinal : s.run.final = (before ++ after).toArray) :
    ((List.range' before.length after.length).foldl f s).run.final =
      (before ++ Oracle.survey s.oracle (List.range' before.length after.length)).toArray := by
  induction after generalizing before s with
  | nil => simp [hfinal, Oracle.survey]
  | cons old after ih =>
    let event := Oracle.event s.oracle before.length
    have hset : (f s before.length).run.final = ((before ++ [event]) ++ after).toArray := by
      rw [hf.final_eq, hfinal]
      simp [event]
    have hrest := ih (before ++ [event]) hset
    rw [List.length_append, List.length_singleton, hf.oracle_eq] at hrest
    rw [List.length_cons, List.range'_succ, List.foldl_cons, hrest, Oracle.survey]
    simp [event]

/-- The whole loop keeps a survey. -/
theorem Surveys.foldl {f : Session σ → Nat → Session σ} (hf : Surveys f) (s : Session σ) :
    ((List.range s.run.cores).foldl f s).run.final =
      (Oracle.survey s.oracle (List.range s.run.cores)).toArray := by
  have hloop := hf.foldl_range' (s := s) [] s.run.final.toList (by simp)
  simpa [Run.cores, ← List.range_eq_range'] using hloop

theorem surveys_show :
    Surveys fun (s : Session σ) core =>
      (s.setFinal core (Oracle.event s.oracle core)).present core where
  final_eq := fun _ _ => rfl
  oracle_eq := fun _ _ => rfl

theorem surveys_noteTrap (code : Int) : Surveys (@noteTrap σ _ code) where
  final_eq := fun _ _ => rfl
  oracle_eq := fun _ _ => rfl

theorem final_dump (hfresh : s.run.dumped = false) :
    s.dump.run.final = (Oracle.survey s.oracle (List.range s.run.cores)).toArray := by
  rw [dump, if_neg (by simp [hfresh])]
  exact surveys_show.foldl { s with run := { s.run with dumped := true } }

theorem final_endByTrap (s : Session σ) (code : Int) :
    (s.endByTrap code).run.final =
      (Oracle.survey s.oracle (List.range s.run.cores)).toArray := by
  have hnoted := (surveys_noteTrap code).foldl { s with run := { s.run with dumped := true } }
  unfold endByTrap
  dsimp only
  split
  · rw [final_transition]
    exact hnoted
  · rw [final_transition]
    exact hnoted

end Session

/-! ## Crossings and events -/

namespace Watchdog

variable {w : Watchdog} {events : Nat → Except Fault TrapEvent}

/-- A trip is a core that was not flagged, with an event above the ceiling. -/
theorem check_trip (hon : w.enabled = true) :
    ∀ trip ∈ (w.check events).trips, events trip.core = .ok trip.event ∧
      w.limit < trip.event.instrs ∧ trip.cpi = trip.event.cpi ∧ w.isTrapped trip.core = false := by
  -- Flags only ever come, so a core without a flag had none before the check.
  refine (check_keeps (P := fun v trips => (v.limit = w.limit ∧
    ∀ core, v.isTrapped core = false → w.isTrapped core = false) ∧
    ∀ trip ∈ trips, events trip.core = .ok trip.event ∧ w.limit < trip.event.instrs ∧
      trip.cpi = trip.event.cpi ∧ w.isTrapped trip.core = false) ?_ hon ⟨⟨rfl, by simp⟩, by simp⟩).2
  rintro v trips core event ⟨⟨hlimit, hflags⟩, htrips⟩ hfree hcore hevent habove
  refine ⟨⟨hlimit, fun other hother => hflags other ?_⟩, fun trip htrip => ?_⟩
  · rw [isTrapped_flag hcore, Bool.or_eq_false_iff] at hother
    exact hother.1
  · rcases List.mem_append.mp htrip with hold | hnew
    · exact htrips trip hold
    · obtain rfl : trip = { core, event, cpi := event.cpi } := by simpa using hnew
      exact ⟨hevent, hlimit ▸ habove, rfl, hflags core hfree⟩

/-- A core that is flagged makes no trip. -/
theorem not_mem_trips {core : Nat} (hon : w.enabled = true) (hflag : w.isTrapped core = true) :
    core ∉ (w.check events).trips.map Trip.core := by
  intro hmem
  obtain ⟨trip, htrip, rfl⟩ := List.mem_map.mp hmem
  have hfree := (check_trip hon trip htrip).2.2.2
  exact absurd (hflag.symm.trans hfree) (by simp)

theorem lt_cores_of_isTrapped {core : Nat} (h : w.isTrapped core = true) : core < w.cores := by
  by_contra hout
  have hnone : w.info.trapped[core]? = none := Array.getElem?_eq_none (Nat.le_of_not_lt hout)
  simp [isTrapped, Array.getD_eq_getD_getElem?, hnone] at h

/-- A check flags the cores of its trips, and each of them once. -/
theorem Found.check_flagged {found : List Crossing} (h : w.Found found) (hon : w.enabled = true)
    (core : Nat) : (w.check events).watchdog.isTrapped core = true ↔
      w.isTrapped core = true ∨ core ∈ (w.check events).trips.map Trip.core := by
  have hafter : (w.check events).watchdog.Found
      (found ++ (w.check events).trips.map (Crossing.mk 0)) := h.check hon
  rw [hafter.flagged, h.flagged]
  simp

theorem check_nodup (hon : w.enabled = true) : ((w.check events).trips.map Trip.core).Nodup := by
  rw [check_eq hon]
  exact List.nodup_range.sublist (sweep_sublist w events _)

end Watchdog

/-- Keeping the events of trips changes the cores of the trips and no other. -/
theorem foldl_set_trips (trips : List Trip) (hnodup : (trips.map Trip.core).Nodup)
    (final : Array TrapEvent) :
    let final' := trips.foldl (fun final trip => final.set! trip.core trip.event) final
    final'.size = final.size ∧
      (∀ trip ∈ trips, trip.core < final.size → final'[trip.core]? = some trip.event) ∧
      ∀ core, core ∉ trips.map Trip.core → final'[core]? = final[core]? := by
  induction trips generalizing final with
  | nil => simp
  | cons first trips ih =>
    rw [List.map_cons, List.nodup_cons] at hnodup
    obtain ⟨hsize, hwritten, hother⟩ := ih hnodup.2 (final.set! first.core first.event)
    rw [Array.set!_eq_setIfInBounds, Array.size_setIfInBounds] at hsize hwritten
    refine ⟨hsize, fun trip htrip hcore => ?_, fun core hcore => ?_⟩
    · rcases List.mem_cons.mp htrip with rfl | hlater
      · rw [List.foldl_cons, hother trip.core hnodup.1]
        simp [hcore]
      · exact hwritten trip hlater hcore
    · rw [List.map_cons, List.mem_cons, not_or] at hcore
      rw [List.foldl_cons, hother core hcore.2, Array.set!_eq_setIfInBounds,
        Array.getElem?_setIfInBounds_ne (Ne.symm hcore.1)]

/-! ## What the events of a run are -/

/-- All cores have been shown at the end, as they are unless each was shown when it crossed
the ceiling. -/
def Run.surveyed (r : Run) : Bool := r.dumped && r.outcome.cause != some .instrLimit

/-- The events of a run of so many cores under a ceiling, in which these crossings were
found. -/
structure Run.Filed (limit : UInt64) (cores : Nat) (found : List Crossing) (r : Run) : Prop where
  cores_eq : r.cores = cores
  watched_eq : r.watchdog.cores = cores
  limit_eq : r.watchdog.limit = limit
  /-- Nothing is shown for the end before there is one. -/
  going : r.isRunning = true → r.dumped = false ∧ r.outcome.cause = none
  /-- Only an end from outside is not shown at once. -/
  pending : r.isRunning = false → r.dumped = false →
    r.outcome.cause = some .fatal ∧ ∃ e, r.outcome.failure = some (.fatal none e)
  limited : r.outcome.cause = some .instrLimit → r.dumped = true
  flags : r.watchdog.Found found
  crossed : ∀ c ∈ found, c.trip.cpi = c.trip.event.cpi ∧ limit < c.trip.event.instrs
  /-- Until all cores are shown, a flagged core is kept as it crossed the ceiling. -/
  kept : r.surveyed = false → ∀ c ∈ found, r.final[c.trip.core]? = some c.trip.event
  blank : r.surveyed = false → ∀ core < cores, r.watchdog.isTrapped core = false →
    r.final[core]? = some {}

namespace Run

variable {σ : Type} [Oracle σ] {r r' : Run} {limit : UInt64} {cores k : Nat} {found : List Crossing}

theorem surveyed_of_not_dumped (h : r.dumped = false) : r.surveyed = false := by
  simp [surveyed, h]

namespace Filed

theorem count (h : r.Filed limit cores found) : r.count.Filed limit cores found :=
  ⟨h.cores_eq, h.watched_eq, h.limit_eq, h.going, h.pending, h.limited, h.flags, h.crossed, h.kept,
    h.blank⟩

theorem ended (h : r.Filed limit cores found) (hdumped : r.dumped = true) :
    r.isRunning = false := by
  rw [Bool.eq_false_iff]
  intro hrun
  simp [(h.going hrun).1] at hdumped

theorem free (h : r.Filed limit cores []) (core : Nat) : r.watchdog.isTrapped core = false := by
  rw [Bool.eq_false_iff, ne_eq, h.flags.flagged]
  simp

/-- Once all cores have been shown, it does not matter what is kept of them. -/
theorem survey (h : r.Filed limit cores found) (hcores : r'.cores = r.cores)
    (hwatchdog : r'.watchdog = r.watchdog) (hend : r'.isRunning = false)
    (hdumped : r'.dumped = true) (hcause : r'.outcome.cause ≠ some .instrLimit) :
    r'.Filed limit cores found where
  cores_eq := hcores.trans h.cores_eq
  watched_eq := hwatchdog ▸ h.watched_eq
  limit_eq := hwatchdog ▸ h.limit_eq
  going := by simp [hend]
  pending := by simp [hdumped]
  limited := fun _ => hdumped
  flags := hwatchdog ▸ h.flags
  crossed := h.crossed
  kept := by simp [surveyed, hdumped, hcause]
  blank := by simp [surveyed, hdumped, hcause]

/-- A check replaces the events of its trips and no other. -/
theorem sweep (h : r.Filed limit cores found) (hon : r.watchdog.enabled = true)
    (events : Nat → Except Fault TrapEvent) :
    let trips := (r.watchdog.check events).trips
    let final := trips.foldl (fun final trip => final.set! trip.core trip.event) r.final
    (∀ trip ∈ trips, final[trip.core]? = some trip.event) ∧
      ∀ core, core ∉ trips.map Trip.core → final[core]? = r.final[core]? := by
  intro trips final
  have hcores : (r.watchdog.check events).watchdog.cores = r.watchdog.cores :=
    (Watchdog.limit_check hon).2
  obtain ⟨-, hwritten, hother⟩ := foldl_set_trips trips (Watchdog.check_nodup hon) r.final
  refine ⟨fun trip htrip => hwritten trip htrip ?_, hother⟩
  have hflag := (h.flags.check_flagged hon trip.core).mpr (.inr (List.mem_map_of_mem htrip))
  have hlt := Watchdog.lt_cores_of_isTrapped hflag
  rwa [hcores, h.watched_eq, ← h.cores_eq] at hlt

/-- The cores that a check finds above the ceiling are kept as they crossed it. -/
theorem noteTrips (h : r.Filed limit cores found) (hrun : r.isRunning = true)
    (hon : r.watchdog.enabled = true) (events : Nat → Except Fault TrapEvent) :
    (r.noteTrips (r.watchdog.check events)).Filed limit cores
      (found ++ (r.watchdog.check events).trips.map (Crossing.mk r.outcome.steps.toNat)) := by
  let sweep := r.watchdog.check events
  have hcheck : sweep.watchdog.limit = r.watchdog.limit ∧
      sweep.watchdog.cores = r.watchdog.cores := Watchdog.limit_check hon
  have htrip : ∀ trip ∈ sweep.trips, events trip.core = .ok trip.event ∧
      r.watchdog.limit < trip.event.instrs ∧ trip.cpi = trip.event.cpi ∧
      r.watchdog.isTrapped trip.core = false := Watchdog.check_trip hon
  obtain ⟨hwritten, hother⟩ := h.sweep hon events
  have hnot := surveyed_of_not_dumped (h.going hrun).1
  refine ⟨(r.cores_noteTrips sweep).trans h.cores_eq, hcheck.2.trans h.watched_eq,
    hcheck.1.trans h.limit_eq, h.going, h.pending, h.limited, h.flags.check hon, fun c hc => ?_,
    fun _ c hc => ?_, fun _ core hcore hfree => ?_⟩
  · rcases List.mem_append.mp hc with hold | hnew
    · exact h.crossed c hold
    · obtain ⟨trip, hmem, rfl⟩ := List.mem_map.mp hnew
      obtain ⟨-, habove, hcpi, -⟩ := htrip trip hmem
      exact ⟨hcpi, h.limit_eq ▸ habove⟩
  · rcases List.mem_append.mp hc with hold | hnew
    · have hflag := (h.flags.flagged c.trip.core).mpr (List.mem_map_of_mem hold)
      exact (hother _ (Watchdog.not_mem_trips hon hflag)).trans (h.kept hnot c hold)
    · obtain ⟨trip, hmem, rfl⟩ := List.mem_map.mp hnew
      exact hwritten trip hmem
  · have hflags : sweep.watchdog.isTrapped core = true ↔
        r.watchdog.isTrapped core = true ∨ core ∈ sweep.trips.map Trip.core :=
      h.flags.check_flagged hon core
    rw [show sweep.watchdog.isTrapped core = false from hfree] at hflags
    have hbefore : r.watchdog.isTrapped core = false ∧ core ∉ sweep.trips.map Trip.core := by
      simpa using hflags
    exact (hother core hbefore.2).trans (h.blank hnot core hcore hbefore.1)

/-- A run that is closed without a show keeps what it has. -/
theorem close (h : r.Filed limit cores found) (hrun : r.isRunning = true)
    (hend : r'.isRunning = false) (hfinal : r'.final = r.final)
    (hwatchdog : r'.watchdog = r.watchdog)
    (hpending : r'.dumped = false →
      r'.outcome.cause = some .fatal ∧ ∃ e, r'.outcome.failure = some (.fatal none e))
    (hlimited : r'.dumped = true ↔ r'.outcome.cause = some .instrLimit) :
    r'.Filed limit cores found := by
  have hnot := surveyed_of_not_dumped (h.going hrun).1
  refine ⟨by rw [Run.cores, hfinal]; exact h.cores_eq, hwatchdog ▸ h.watched_eq,
    hwatchdog ▸ h.limit_eq, by simp [hend], fun _ => hpending, hlimited.mpr, hwatchdog ▸ h.flags,
    h.crossed, fun _ => hfinal ▸ h.kept hnot, fun _ => ?_⟩
  rw [hfinal, hwatchdog]
  exact h.blank hnot

/-- Critical sections keep the events in order, and forget no crossing. -/
theorem change (h : r.Filed limit cores found) (hchange : r.Change σ k r') :
    ∃ found', found <+: found' ∧ r'.Filed limit cores found' := by
  cases hchange with
  | rest => exact ⟨found, List.prefix_rfl, h⟩
  | shown final hend hfresh hsize =>
    refine ⟨found, List.prefix_rfl, h.survey hsize rfl hend rfl fun hcause => ?_⟩
    simp [h.limited hcause] at hfresh
  | aborted e hrun =>
    refine ⟨found, List.prefix_rfl, h.close hrun rfl rfl rfl (fun _ => ⟨rfl, e, rfl⟩) ?_⟩
    simpa [Run.close] using (h.going hrun).1
  | failed e final hrun hsize =>
    exact ⟨found, List.prefix_rfl, h.survey hsize rfl rfl rfl (by simp [Run.close])⟩
  | mismatched final hrun hsize =>
    exact ⟨found, List.prefix_rfl, h.survey hsize rfl rfl rfl (by simp [Run.close])⟩
  | trapped oracle events hrun hcode hlength =>
    refine ⟨found, List.prefix_rfl, ?_⟩
    have hsize : events.toArray.size = r.cores := by simpa using hlength
    unfold closeByTrap
    split
    · exact h.survey hsize rfl rfl rfl (by simp [Run.close])
    · exact h.survey hsize rfl rfl rfl (by simp [Run.close])
  | passed hrun hoff => exact ⟨found, List.prefix_rfl, h.count⟩
  | watched event hrun hon hsome =>
    exact ⟨_, List.prefix_append .., h.count.noteTrips hrun hon _⟩
  | limited event hrun hon hall =>
    have hnoted := h.count.noteTrips hrun hon fun core => .ok (event core)
    exact ⟨_, List.prefix_append .., hnoted.close hrun rfl rfl rfl
      (fun hfresh => (by cases hfresh)) ⟨fun _ => rfl, fun _ => rfl⟩⟩

end Filed

/-- A run begins with a blank event for each core. -/
theorem filed_create {cores : Int} {trace : Option Trace}
    (hcreate : Run.create limit cores trace = .ok r) :
    r.isRunning = true ∧ r.Filed limit cores.toNat [] := by
  obtain ⟨w, hw, rfl⟩ := Run.create_eq_ok hcreate
  obtain ⟨-, hlimit, -, hcores, -, -⟩ := Watchdog.tallied_create hw
  refine ⟨rfl, by simp [Run.cores], hcores, hlimit, fun _ => ⟨rfl, rfl⟩,
    fun hend => (by cases hend), fun hcause => (by cases hcause), Watchdog.found_create hw,
    by simp, by simp, ?_⟩
  intro _ core hcore _
  simp [hcore]

end Run

namespace Session

variable {σ : Type} [Oracle σ] {s : Session σ} {r' : Run} {limit : UInt64} {cores : Nat}
  {found : List Crossing}

/-! ## What an answer leads to -/

/-- The session with one more step counted. -/
def counted (s : Session σ) : Session σ := { s with run := s.run.count }

/-- What drawing the consequences of an answer comes to. -/
inductive Consequence (s : Session σ) : Session σ → Prop where
  | late (hend : s.run.isRunning = false) : Consequence s s.dump
  | excused (hrun : s.run.isRunning = true) : Consequence s s
  | failed (hrun : s.run.isRunning = true) (e : Error) :
      Consequence s
        (s.transition .failed trapRunning .fatal
          (some (.fatal (some (s.run.outcome.steps + 1)) e))).dump
  | mismatched (hrun : s.run.isRunning = true) :
      Consequence s
        (s.counted.transition .failed trapRunning .mismatch
          (some (.mismatch (s.run.outcome.steps + 1)))).dump
  | trapped (hrun : s.run.isRunning = true) (code : Int) : Consequence s (s.counted.endByTrap code)
  | watched (hrun : s.run.isRunning = true) : Consequence s s.counted.watch

theorem consequence_conclude (s : Session σ) (result : Except Error Bool) (cancelled : Bool) :
    Consequence s (s.conclude result cancelled) := by
  cases hrun : s.run.isRunning with
  | false =>
    rw [conclude_of_ended s hrun]
    exact .late hrun
  | true =>
    cases result with
    | error e =>
      simp only [conclude, hrun, Bool.not_true, Bool.false_eq_true, if_false]
      split
      · exact .excused hrun
      · exact .failed hrun e
    | ok differs =>
      simp only [conclude, hrun, Bool.not_true, Bool.false_eq_true, if_false]
      split
      · exact .mismatched hrun
      · split
        · exact .trapped hrun _
        · exact .watched hrun

/-- What a critical section does to the events that the run keeps, with the cores that it
shows. -/
inductive Keeps (s : Session σ) (r' : Run) : List Nat → Prop where
  | nothing (hfinal : r'.final = s.run.final) (hdumped : r'.dumped = s.run.dumped)
      (hwatchdog : r'.watchdog = s.run.watchdog) : Keeps s r' []
  | all (hfinal : r'.final = (Oracle.survey s.oracle (List.range s.run.cores)).toArray)
      (hfresh : s.run.dumped = false) (hafter : r'.surveyed = true)
      (hwatchdog : r'.watchdog = s.run.watchdog) : Keeps s r' (List.range s.run.cores)
  | crossings (hrun : s.run.isRunning = true) (hon : s.run.watchdog.enabled = true)
      (sweep : Watchdog.Sweep)
      (hsweep : sweep = s.run.watchdog.check fun core => .ok (Oracle.event s.oracle core))
      (hfinal : r'.final =
        sweep.trips.foldl (fun final trip => final.set! trip.core trip.event) s.run.final)
      (hafter : r'.surveyed = false) (hwatchdog : r'.watchdog = sweep.watchdog) :
      Keeps s r' (sweep.trips.map Trip.core)

theorem dumped_dump (s : Session σ) : s.dump.run.dumped = true := by
  obtain ⟨final, -, hshown, -⟩ := s.run_dump
  rw [hshown]

theorem keeps_dump (h : s.run.Filed limit cores found) (hfresh : s.run.dumped = false) :
    s.Keeps s.dump.run (List.range s.run.cores) := by
  obtain ⟨final, -, hrun, -⟩ := s.run_dump
  refine .all (final_dump hfresh) hfresh ?_ (by rw [hrun])
  have hcause : s.run.outcome.cause ≠ some .instrLimit := fun hcause => by
    simp [h.limited hcause] at hfresh
  rw [hrun]
  simpa [Run.surveyed] using hcause

/-- A failure shows all cores, in the section that ends the run. -/
theorem keeps_fail (h : s.run.Filed limit cores found) (hrun : s.run.isRunning = true)
    {cause : Cause} (hcause : cause ≠ .instrLimit) (e : Error) :
    s.Keeps (s.transition .failed trapRunning cause (some e)).dump.run
      (List.range s.run.cores) := by
  obtain ⟨final, -, hfail⟩ := run_fail hrun cause e
  have hfresh := (h.going hrun).1
  have hstill : (s.transition .failed trapRunning cause (some e)).run.dumped = false := by
    rw [run_transition hrun]
    exact hfresh
  have hfinal := final_dump hstill
  rw [oracle_transition, Run.cores, final_transition] at hfinal
  refine .all hfinal hfresh ?_ ?_
  · rw [hfail]
    simpa [Run.surveyed, Run.close] using hcause
  · rw [hfail]
    rfl

/-- A trap shows all cores, in the section that ends the run. -/
theorem keeps_endByTrap (h : s.run.Filed limit cores found) (hrun : s.run.isRunning = true)
    (code : Int) : s.Keeps (s.endByTrap code).run (List.range s.run.cores) := by
  obtain ⟨events, -, htrap⟩ := run_endByTrap hrun code
  refine .all (s.final_endByTrap code) (h.going hrun).1 ?_ ?_
  · rw [htrap, Run.closeByTrap]
    split <;> rfl
  · rw [htrap, Run.closeByTrap]
    split <;> rfl

theorem keeps_watch (h : s.run.Filed limit cores found) (hrun : s.run.isRunning = true)
    (hon : s.run.watchdog.enabled = true) :
    s.Keeps s.watch.run ((s.run.watchdog.check fun core =>
      .ok (Oracle.event s.oracle core)).trips.map Trip.core) := by
  rw [run_watch hrun hon]
  dsimp only
  split
  · exact .crossings hrun hon _ rfl rfl rfl rfl
  · exact .crossings hrun hon _ rfl rfl (Run.surveyed_of_not_dumped (h.going hrun).1) rfl

theorem watch_of_off (hoff : s.run.watchdog.enabled = false) : s.watch = s := by
  rw [watch, if_neg (by simp [hoff])]

/-- Counting a step makes no difference to the events. -/
theorem Keeps.of_counted {shown : List Nat} (h : s.counted.Keeps r' shown) : s.Keeps r' shown := by
  cases h with
  | nothing hfinal hdumped hwatchdog => exact .nothing hfinal hdumped hwatchdog
  | all hfinal hfresh hafter hwatchdog => exact .all hfinal hfresh hafter hwatchdog
  | crossings hrun hon sweep hsweep hfinal hafter hwatchdog =>
    exact Keeps.crossings (s := s) hrun hon sweep hsweep hfinal hafter hwatchdog

theorem exists_keeps_dump (h : s.run.Filed limit cores found) :
    ∃ shown, s.Keeps s.dump.run shown := by
  cases hdumped : s.run.dumped with
  | true =>
    obtain ⟨-, -, -, hsame⟩ := s.run_dump
    rw [hsame hdumped]
    exact ⟨[], .nothing rfl rfl rfl⟩
  | false => exact ⟨_, keeps_dump h hdumped⟩

theorem exists_keeps_finish (h : s.run.Filed limit cores found) :
    ∃ shown, s.Keeps s.finish.run shown := by
  unfold finish
  split
  · exact ⟨[], .nothing rfl rfl rfl⟩
  · exact exists_keeps_dump h

theorem exists_keeps_conclude (h : s.run.Filed limit cores found) (result : Except Error Bool)
    (cancelled : Bool) : ∃ shown, s.Keeps (s.conclude result cancelled).run shown := by
  have hcounted : s.counted.run.Filed limit cores found := h.count
  have hconsequence := s.consequence_conclude result cancelled
  generalize s.conclude result cancelled = t at hconsequence
  cases hconsequence with
  | late => exact exists_keeps_dump h
  | excused => exact ⟨[], .nothing rfl rfl rfl⟩
  | failed hrun e => exact ⟨_, keeps_fail h hrun (by simp) _⟩
  | mismatched hrun => exact ⟨_, (keeps_fail hcounted hrun (by simp) _).of_counted⟩
  | trapped hrun code => exact ⟨_, (keeps_endByTrap hcounted hrun code).of_counted⟩
  | watched hrun =>
    cases hon : s.counted.run.watchdog.enabled with
    | true => exact ⟨_, (keeps_watch hcounted hrun hon).of_counted⟩
    | false =>
      rw [watch_of_off hon]
      exact ⟨[], .nothing rfl rfl rfl⟩

omit [Oracle σ] in
theorem kept_abort (s : Session σ) (e : Error) :
    (s.abort e).run.final = s.run.final ∧ (s.abort e).run.dumped = s.run.dumped ∧
      (s.abort e).run.watchdog = s.run.watchdog := by
  unfold abort
  cases hrun : s.run.isRunning with
  | true =>
    rw [run_transition hrun]
    exact ⟨rfl, rfl, rfl⟩
  | false =>
    rw [transition_of_ended hrun]
    exact ⟨rfl, rfl, rfl⟩

namespace Keeps

variable {shown : List Nat}

/-- Once the statistics have been shown the events stay. -/
theorem frozen (h : s.Keeps r' shown) (hfiled : s.run.Filed limit cores found)
    (hdumped : s.run.dumped = true) : r'.final = s.run.final ∧ r'.dumped = true := by
  cases h with
  | nothing hfinal hsame => exact ⟨hfinal, hsame.trans hdumped⟩
  | all _ hfresh => simp [hdumped] at hfresh
  | crossings hrun => simp [(hfiled.going hrun).1] at hdumped

/-- The show of all statistics keeps what the oracle says then. -/
theorem surveyed (h : s.Keeps r' shown) (hfresh : s.run.dumped = false)
    (hsurveyed : r'.surveyed = true) :
    r'.final = (Oracle.survey s.oracle (List.range s.run.cores)).toArray := by
  cases h with
  | nothing _ hsame => simp [Run.surveyed, hsame, hfresh] at hsurveyed
  | all hfinal => exact hfinal
  | crossings _ _ _ _ _ hafter => simp [hsurveyed] at hafter

/-- A core that a section flags is kept as the oracle describes it then. -/
theorem crossed (h : s.Keeps r' shown) (hfiled : s.run.Filed limit cores found) {core : Nat}
    (hfree : s.run.watchdog.isTrapped core = false) (hflag : r'.watchdog.isTrapped core = true) :
    r'.surveyed = false ∧ r'.final[core]? = some (Oracle.event s.oracle core) := by
  cases h with
  | nothing _ _ hwatchdog | all _ _ _ hwatchdog =>
    rw [hwatchdog, hfree] at hflag
    cases hflag
  | crossings _ hon sweep hsweep hfinal hafter hwatchdog =>
    subst hsweep
    rw [hwatchdog, hfiled.flags.check_flagged hon core, hfree] at hflag
    obtain ⟨trip, htrip, rfl⟩ := List.mem_map.mp (hflag.resolve_left Bool.false_ne_true)
    have hevent := (Watchdog.check_trip hon trip htrip).1
    rw [Except.ok.injEq] at hevent
    rw [hfinal, hevent]
    exact ⟨hafter, (hfiled.sweep hon _).1 trip htrip⟩

end Keeps

/-- A step that ends the run shows the statistics before anybody sees the end. -/
theorem dumped_of_conclude (hrun : s.run.isRunning = true) {result : Except Error Bool}
    {cancelled : Bool} (hend : (s.conclude result cancelled).run.isRunning = false) :
    (s.conclude result cancelled).run.dumped = true := by
  have hconsequence := s.consequence_conclude result cancelled
  generalize s.conclude result cancelled = t at hconsequence hend
  cases hconsequence with
  | late hover => simp [hrun] at hover
  | excused => simp [hrun] at hend
  | failed | mismatched => exact dumped_dump _
  | trapped _ code =>
    obtain ⟨events, -, htrap⟩ := run_endByTrap (s := s.counted) hrun code
    rw [htrap, Run.closeByTrap]
    split <;> rfl
  | watched =>
    cases hon : s.counted.run.watchdog.enabled with
    | false =>
      rw [watch_of_off hon] at hend
      exact absurd (hrun.symm.trans hend) (by simp)
    | true =>
      rw [run_watch (s := s.counted) hrun hon] at hend ⊢
      split
      · rfl
      · rename_i hsome
        rw [if_neg hsome] at hend
        exact absurd (hrun.symm.trans hend) (by simp)

/-- One critical section of a session, or work outside the run. -/
inductive Section : Session σ → Session σ → Prop where
  | work {s t : Session σ} (hrun : t.run = s.run) : Section s t
  | dump {s : Session σ} (hend : s.run.isRunning = false) : Section s s.dump
  | conclude {s : Session σ} (result : Except Error Bool) (cancelled : Bool) :
      Section s (s.conclude result cancelled)
  | finish {s : Session σ} : Section s s.finish
  /-- An abort does not look at the oracle, which may have changed just before. -/
  | abort {s t : Session σ} (hrun : t.run = s.run) (e : Error) : Section s (t.abort e)

namespace Section

variable {s' : Session σ}

theorem change (h : s.Section s') : ∃ k, s.run.Change σ k s'.run := by
  cases h with
  | work hrun => exact ⟨0, hrun ▸ .rest⟩
  | dump hend => exact ⟨0, change_dump hend⟩
  | conclude result cancelled =>
    obtain ⟨k, -, hchange⟩ := s.change_conclude result cancelled
    exact ⟨k, hchange⟩
  | finish => exact ⟨0, s.change_finish⟩
  | @abort t hrun e => exact ⟨0, hrun ▸ t.change_abort e⟩

theorem keeps (h : s.Section s') (hfiled : s.run.Filed limit cores found) :
    ∃ shown, s.Keeps s'.run shown := by
  cases h with
  | work hrun => exact ⟨[], .nothing (by rw [hrun]) (by rw [hrun]) (by rw [hrun])⟩
  | dump => exact exists_keeps_dump hfiled
  | conclude result cancelled => exact exists_keeps_conclude hfiled result cancelled
  | finish => exact exists_keeps_finish hfiled
  | @abort t hrun e =>
    obtain ⟨hfinal, hdumped, hwatchdog⟩ := t.kept_abort e
    exact ⟨[], .nothing (hrun ▸ hfinal) (hrun ▸ hdumped) (hrun ▸ hwatchdog)⟩

theorem filed (h : s.Section s') (hfiled : s.run.Filed limit cores found) :
    ∃ found', found <+: found' ∧ s'.run.Filed limit cores found' := by
  obtain ⟨k, hchange⟩ := h.change
  exact hfiled.change hchange

/-- After the show everything about the end stays. -/
theorem frozen (h : s.Section s') (hfiled : s.run.Filed limit cores found)
    (hdumped : s.run.dumped = true) :
    s'.run.final = s.run.final ∧ s'.run.dumped = true ∧ s'.run.surveyed = s.run.surveyed := by
  obtain ⟨k, hchange⟩ := h.change
  obtain ⟨shown, hkeeps⟩ := h.keeps hfiled
  obtain ⟨hfinal, hdumped'⟩ := hkeeps.frozen hfiled hdumped
  obtain ⟨houtcome, -⟩ := hchange.frozen (hfiled.ended hdumped)
  exact ⟨hfinal, hdumped', by rw [Run.surveyed, Run.surveyed, houtcome, hdumped, hdumped']⟩

end Section

/-- From one session to another by any number of critical sections. -/
abbrev Leads : Session σ → Session σ → Prop := Relation.ReflTransGen Section

namespace Leads

variable {s' : Session σ}

theorem filed (h : s.Leads s') (hfiled : s.run.Filed limit cores found) :
    ∃ found', found <+: found' ∧ s'.run.Filed limit cores found' := by
  induction h with
  | refl => exact ⟨found, List.prefix_rfl, hfiled⟩
  | tail _ hsection ih =>
    obtain ⟨before, hprefix, hfiled'⟩ := ih
    obtain ⟨after, hprefix', hfiled''⟩ := hsection.filed hfiled'
    exact ⟨after, hprefix.trans hprefix', hfiled''⟩

/-- The statistics are shown once: after that nothing is kept any more. -/
theorem frozen (h : s.Leads s') (hfiled : s.run.Filed limit cores found)
    (hdumped : s.run.dumped = true) :
    s'.run.final = s.run.final ∧ s'.run.dumped = true ∧ s'.run.surveyed = s.run.surveyed := by
  induction h with
  | refl => exact ⟨rfl, hdumped, rfl⟩
  | tail hleads hsection ih =>
    obtain ⟨hfinal, hshown, hsurveyed⟩ := ih
    obtain ⟨found', -, hfiled'⟩ := filed hleads hfiled
    obtain ⟨hfinal', hshown', hsurveyed'⟩ := hsection.frozen hfiled' hshown
    exact ⟨hfinal'.trans hfinal, hshown', hsurveyed'.trans hsurveyed⟩

end Leads

/-- Once all cores have been shown, each is kept as it was described at the show. -/
theorem final_of_shown {t u : Session σ} (hfiled : s.run.Filed limit cores found)
    (hsection : s.Section t) (hleads : t.Leads u) (hfresh : s.run.dumped = false)
    (hshown : t.run.dumped = true) (hsurveyed : u.run.surveyed = true) :
    u.run.final = (Oracle.survey s.oracle (List.range cores)).toArray := by
  obtain ⟨found', -, hfiled'⟩ := hsection.filed hfiled
  obtain ⟨shown, hkeeps⟩ := hsection.keeps hfiled
  obtain ⟨hfinal, -, hsame⟩ := hleads.frozen hfiled' hshown
  rw [hfinal, ← hfiled.cores_eq]
  exact hkeeps.surveyed hfresh (hsame.symm.trans hsurveyed)

/-- A core that a section flags stays flagged with the cycles per instruction of that moment,
and unless all cores are shown it is kept as it was then. -/
theorem crossing_kept {t u : Session σ} (hfiled : s.run.Filed limit cores found)
    (hsection : s.Section t) (hleads : t.Leads u) {core : Nat}
    (hfree : s.run.watchdog.isTrapped core = false) (hflag : t.run.watchdog.isTrapped core = true) :
    limit < (Oracle.event s.oracle core).instrs ∧
      u.run.watchdog.isTrapped core = true ∧
      u.run.watchdog.info.cpi[core]? = some (Oracle.event s.oracle core).cpi ∧
      (u.run.surveyed = false → u.run.final[core]? = some (Oracle.event s.oracle core)) := by
  obtain ⟨found', -, hfiled'⟩ := hsection.filed hfiled
  obtain ⟨shown, hkeeps⟩ := hsection.keeps hfiled
  obtain ⟨hnot, hfinal⟩ := hkeeps.crossed hfiled hfree hflag
  obtain ⟨c, hc, rfl⟩ := List.mem_map.mp ((hfiled'.flags.flagged core).mp hflag)
  have hevent : c.trip.event = Oracle.event s.oracle c.trip.core :=
    Option.some.inj ((hfiled'.kept hnot c hc).symm.trans hfinal)
  -- No crossing is forgotten later.
  obtain ⟨found'', hprefix, hfiled''⟩ := hleads.filed hfiled'
  have hlater := hprefix.subset hc
  obtain ⟨hcpi, habove⟩ := hfiled''.crossed c hlater
  rw [← hevent]
  refine ⟨habove, (hfiled''.flags.flagged _).mpr (List.mem_map_of_mem hlater), ?_,
    fun hnot' => hfiled''.kept hnot' c hlater⟩
  rw [← hcpi]
  exact hfiled''.flags.cpi_eq c hlater

end Session

namespace Control

variable {σ : Type} [Oracle σ] {c c' : Control σ}

theorem Move.isSection (h : Move c c') : c.session.Section c'.session := by
  cases h with
  | enter | begin | answer | work => exact .work rfl
  | enterLate _ hend => exact .dump hend
  | conclude cancelled => exact .conclude _ cancelled
  | finish => exact .finish
  | abort e => exact .abort rfl e

theorem leads_of_reach (h : Reach c c') : c.session.Leads c'.session :=
  h.lift Control.session fun _ _ hmove => hmove.isSection

end Control

end Cosim

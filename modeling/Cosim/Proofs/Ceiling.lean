import Cosim.Proofs.Statistics
import Mathlib.Data.List.Induction

/-!
# The ceiling over a whole history of checks

A watchdog is checked again and again.  The events that the cores answer with are arbitrary: the
counters may fall from one check to the next, and a core may fail to answer, which cuts its check
short.

* `Watchdog.Sweep.Asks` says which cores a check asks, and `Watchdog.Shows` what it gets to see.
* `Watchdog.mem_trips` says what it finds, and `Watchdog.Found.isTrapped_check` which flags it
  leaves behind.
* `Watchdog.after` is a watchdog after some checks.  `Watchdog.Crosses` marks the checks that saw
  a core above the ceiling; `Watchdog.isTrapped_after` ties them to the flags, and
  `Watchdog.cpi_of_firstCrosses` the first of them to the number that is kept.
* `Watchdog.MarkedOnce` collects what holds after any number of checks;
  `Watchdog.marks_each_core_once` is the main statement.
-/

namespace Cosim.Watchdog

/-- What each core answers when a check asks it for its event. -/
abbrev Answers := Nat → Except Fault TrapEvent

variable {w : Watchdog} {core : Nat} {event : TrapEvent}
  {events : Answers} {list : List Nat}

/-! ## What a check asks -/

/-- The cores without a flag, in order. -/
def free (w : Watchdog) : List Nat := (List.range w.cores).filter fun core => !w.isTrapped core

/-- The check asked these cores, in order, all of them or up to the first that did not answer. -/
structure Sweep.Asks (s : Sweep) (events : Answers) (cores : List Nat) :
    Prop where
  answered : ∀ core ∈ s.asked, (events core).isOk = true
  whole : s.fault = none → s.asked = cores
  cut_short : ∀ fault, s.fault = some fault →
    ∃ core rest, cores = s.asked ++ core :: rest ∧ events core = .error fault

theorem Sweep.Asks.cons {s s' : Sweep} (h : s.Asks events list) (hevent : events core = .ok event)
    (hasked : s'.asked = core :: s.asked) (hfault : s'.fault = s.fault) :
    s'.Asks events (core :: list) where
  answered := by
    intro c hc
    rw [hasked] at hc
    rcases List.mem_cons.mp hc with rfl | hrest
    · rw [hevent]
      rfl
    · exact h.answered c hrest
  whole := by
    intro hnone
    rw [hasked, h.whole (hfault ▸ hnone)]
  cut_short := by
    intro fault hsome
    obtain ⟨c, rest, hsplit, herror⟩ := h.cut_short fault (hfault ▸ hsome)
    exact ⟨c, rest, by rw [hasked, hsplit, List.cons_append], herror⟩

/-- A flag changes nothing for the cores that are still to come. -/
theorem filter_flag (hcore : core < w.cores) (hnew : core ∉ list) :
    (list.filter fun c => !(w.flag core event).isTrapped c) =
      list.filter fun c => !w.isTrapped c := by
  refine List.filter_congr fun c hc => ?_
  have hne : c ≠ core := fun hsame => hnew (hsame ▸ hc)
  rw [isTrapped_flag hcore, beq_false_of_ne hne, Bool.or_false]

/-- A sweep asks the cores of its list that have no flag. -/
theorem sweep_asks (hnodup : list.Nodup) (hlist : ∀ core ∈ list, core < w.cores) :
    (w.sweep events list).Asks events (list.filter fun core => !w.isTrapped core) := by
  fun_induction Watchdog.sweep w events list with
  | case1 w => exact ⟨by simp, fun _ => rfl, by simp⟩
  | case2 w core rest htrapped ih =>
    rw [List.filter_cons_of_neg (by simp [htrapped])]
    exact ih hnodup.of_cons fun c hc => hlist c (.tail _ hc)
  | case3 w core rest htrapped fault hfault =>
    rw [List.filter_cons_of_pos (by simpa using htrapped)]
    refine ⟨by simp, by simp, fun fault' hsome => ⟨core, _, rfl, ?_⟩⟩
    rw [hfault, Option.some.inj hsome]
  | case4 w core rest htrapped event hevent hle s ih =>
    rw [List.filter_cons_of_pos (by simpa using htrapped)]
    exact (ih hnodup.of_cons fun c hc => hlist c (.tail _ hc)).cons hevent rfl rfl
  | case5 w core rest htrapped event hevent hle s ih =>
    have hcore := hlist core (.head _)
    have hrest : ∀ c ∈ rest, c < (w.flag core event).cores := by
      intro c hc
      rw [cores_flag]
      exact hlist c (.tail _ hc)
    rw [List.filter_cons_of_pos (by simpa using htrapped)]
    have hasks := ih hnodup.of_cons hrest
    rw [filter_flag hcore (List.nodup_cons.mp hnodup).1] at hasks
    exact hasks.cons hevent rfl rfl

/-- A check asks the cores without a flag. -/
theorem check_asks (hon : w.enabled = true) : (w.check events).Asks events w.free := by
  rw [check_eq hon]
  exact sweep_asks List.nodup_range (by simp)

theorem mem_free : core ∈ w.free ↔ core < w.cores ∧ w.isTrapped core = false := by
  simp [free]

theorem pairwise_free (w : Watchdog) : w.free.Pairwise (· < ·) :=
  List.pairwise_lt_range.sublist List.filter_sublist

/-- The answers of the cores that have a flag make no difference. -/
theorem sweep_congr {events' : Answers} (hlist : ∀ core ∈ list, core < w.cores)
    (hsame : ∀ core, w.isTrapped core = false → events' core = events core) :
    w.sweep events' list = w.sweep events list := by
  fun_induction Watchdog.sweep w events list with
  | case1 w => rfl
  | case2 w core rest htrapped ih =>
    rw [sweep, if_pos htrapped]
    exact ih (fun c hc => hlist c (.tail _ hc)) hsame
  | case3 w core rest htrapped fault hfault =>
    rw [sweep, if_neg htrapped, hsame core (by simpa using htrapped), hfault]
  | case4 w core rest htrapped event hevent hle s ih =>
    rw [sweep, if_neg htrapped, hsame core (by simpa using htrapped), hevent]
    simp only [if_pos hle, ih (fun c hc => hlist c (.tail _ hc)) hsame, s]
  | case5 w core rest htrapped event hevent hle s ih =>
    rw [sweep, if_neg htrapped, hsame core (by simpa using htrapped), hevent]
    have hrest : ∀ c ∈ rest, c < (w.flag core event).cores := by
      intro c hc
      rw [cores_flag]
      exact hlist c (.tail _ hc)
    have hsame' : ∀ c, (w.flag core event).isTrapped c = false → events' c = events c := by
      intro c hc
      rw [isTrapped_flag (hlist core (.head _)), Bool.or_eq_false_iff] at hc
      exact hsame c hc.1
    simp only [if_neg hle, ih hrest hsame', s]

theorem check_congr {events' : Answers}
    (hsame : ∀ core, w.isTrapped core = false → events' core = events core) :
    w.check events' = w.check events := by
  unfold check
  split
  · exact sweep_congr (by simp) hsame
  · rfl

/-! ## What a check finds -/

/-- A check comes to this core, if it has no flag, and is answered with this event: no core before
it that has to be asked fails to answer. -/
structure Shows (w : Watchdog) (events : Answers) (core : Nat)
    (event : TrapEvent) : Prop where
  core_lt : core < w.cores
  answer : events core = .ok event
  reached : ∀ other < core, w.isTrapped other = false → (events other).isOk = true

/-- A check asks the cores that it comes to. -/
theorem mem_asked (hon : w.enabled = true) :
    core ∈ (w.check events).asked ↔
      w.isTrapped core = false ∧ ∃ event, w.Shows events core event := by
  have hasks : (w.check events).Asks events w.free := check_asks hon
  have hsorted := w.pairwise_free
  constructor
  · intro hmem
    obtain ⟨rest, hfree⟩ : ∃ rest, w.free = (w.check events).asked ++ rest := by
      cases hfault : (w.check events).fault with
      | none => exact ⟨[], by rw [hasks.whole hfault, List.append_nil]⟩
      | some fault =>
        obtain ⟨c, rest, hsplit, -⟩ := hasks.cut_short fault hfault
        exact ⟨c :: rest, hsplit⟩
    obtain ⟨hlt, huntrapped⟩ := mem_free.mp (hfree ▸ List.mem_append_left rest hmem)
    have hanswer := hasks.answered core hmem
    cases hevent : events core with
    | error fault => simp [hevent, Except.isOk, Except.toBool] at hanswer
    | ok event =>
      refine ⟨huntrapped, event, hlt, hevent, fun other hother hfree' => ?_⟩
      have hin := mem_free.mpr ⟨by omega, hfree'⟩
      rw [hfree] at hsorted hin
      rcases List.mem_append.mp hin with hin | hlater
      · exact hasks.answered other hin
      · have := (List.pairwise_append.mp hsorted).2.2 core hmem other hlater
        omega
  · rintro ⟨huntrapped, event, hshows⟩
    have hin := mem_free.mpr ⟨hshows.core_lt, huntrapped⟩
    cases hfault : (w.check events).fault with
    | none => rwa [hasks.whole hfault]
    | some fault =>
      obtain ⟨c, rest, hsplit, herror⟩ := hasks.cut_short fault hfault
      rw [hsplit] at hin hsorted
      rcases List.mem_append.mp hin with hin | hlater
      · exact hin
      -- The core that cut the check short would have to come before this one.
      · have hcut := mem_free.mp (hsplit ▸ List.mem_append_right _ (.head rest))
        rcases List.mem_cons.mp hlater with rfl | hlater
        · simp [hshows.answer] at herror
        · have hlt := List.rel_of_pairwise_cons (List.pairwise_append.mp hsorted).2.1 hlater
          have hok := hshows.reached c hlt hcut.2
          simp [herror, Except.isOk, Except.toBool] at hok

/-- The trip that the answer of a core makes. -/
def tripOf (w : Watchdog) (events : Answers) (core : Nat) : Option Trip :=
  match events core with
  | .error _ => none
  | .ok event => if w.limit < event.instrs then some { core, event, cpi := event.cpi } else none

/-- The trips of a sweep are those of the cores that it asked. -/
theorem sweep_trips (w : Watchdog) (events : Answers) (list : List Nat) :
    (w.sweep events list).trips = (w.sweep events list).asked.filterMap (w.tripOf events) := by
  fun_induction Watchdog.sweep w events list with
  | case1 w => rfl
  | case2 w core rest htrapped ih => exact ih
  | case3 w core rest htrapped fault hfault => rfl
  | case4 w core rest htrapped event hevent hle s ih =>
    rw [List.filterMap_cons_none]
    · exact ih
    · simp [tripOf, hevent, UInt64.not_lt.mpr hle]
  | case5 w core rest htrapped event hevent hle s ih =>
    rw [List.filterMap_cons_some (b := { core, event, cpi := event.cpi })]
    · exact congrArg _ ih
    · simp [tripOf, hevent, UInt64.not_le.mp hle]

theorem tripOf_eq_some {trip : Trip} :
    w.tripOf events core = some trip ↔ ∃ event, events core = .ok event ∧
      w.limit < event.instrs ∧ trip = { core, event, cpi := event.cpi } := by
  unfold tripOf
  cases events core with
  | error fault => simp
  | ok event =>
    simp only [Except.ok.injEq, exists_eq_left']
    by_cases habove : w.limit < event.instrs
    · simp [habove, eq_comm]
    · simp [habove]

/-- A trip is a core without a flag that the check sees above the ceiling. -/
theorem mem_trips (hon : w.enabled = true) {trip : Trip} :
    trip ∈ (w.check events).trips ↔ ∃ event, w.isTrapped trip.core = false ∧
      w.Shows events trip.core event ∧ w.limit < event.instrs ∧
      trip = { core := trip.core, event, cpi := event.cpi } := by
  have htrips : (w.check events).trips = (w.check events).asked.filterMap (w.tripOf events) := by
    rw [check_eq hon]
    exact sweep_trips w events _
  rw [htrips, List.mem_filterMap]
  constructor
  · rintro ⟨core, hasked, htrip⟩
    obtain ⟨hfree, event, hshows⟩ := (mem_asked hon).mp hasked
    obtain ⟨event', hevent, habove, rfl⟩ := tripOf_eq_some.mp htrip
    obtain rfl : event = event' := Except.ok.inj (hshows.answer.symm.trans hevent)
    exact ⟨event, hfree, hshows, habove, rfl⟩
  · rintro ⟨event, hfree, hshows, habove, htrip⟩
    exact ⟨trip.core, (mem_asked hon).mpr ⟨hfree, event, hshows⟩,
      tripOf_eq_some.mpr ⟨event, hshows.answer, habove, htrip⟩⟩

/-! ## Histories of checks -/

/-- A watchdog after some checks, each with its own answers of the cores. -/
def after (w : Watchdog) (checks : List Answers) : Watchdog :=
  checks.foldl (fun w events => (w.check events).watchdog) w

/-- Check number `i`: the watchdog as it was before, and the answers of the cores. -/
def checkAt (w : Watchdog) (checks : List Answers) (i : Nat) : Option (Watchdog × Answers) :=
  checks[i]?.map fun events => (w.after (checks.take i), events)

variable {checks : List Answers} {limit : UInt64} {i : Nat} {v : Watchdog}

theorem after_concat (w : Watchdog) (checks : List Answers) (events : Answers) :
    w.after (checks ++ [events]) = ((w.after checks).check events).watchdog := by
  simp [after]

/-- One more check leaves the others as they are. -/
theorem checkAt_concat {last : Answers} :
    w.checkAt (checks ++ [last]) i = some (v, events) ↔
      w.checkAt checks i = some (v, events) ∨
        i = checks.length ∧ w.after checks = v ∧ last = events := by
  unfold checkAt
  rcases Nat.lt_trichotomy i checks.length with hlt | rfl | hgt
  · rw [List.getElem?_append_left hlt, List.take_append_of_le_length (Nat.le_of_lt hlt)]
    simp [Nat.ne_of_lt hlt]
  · simp
  · rw [List.getElem?_eq_none (by simp; omega), List.getElem?_eq_none (Nat.le_of_lt hgt)]
    simp [Nat.ne_of_gt hgt]

theorem checkAt_eq_some :
    w.checkAt checks i = some (v, events) ↔
      checks[i]? = some events ∧ w.after (checks.take i) = v := by
  simp [checkAt, and_comm]

/-- An earlier check does not depend on the later ones. -/
theorem checkAt_take {k : Nat} (hi : i < k) : w.checkAt (checks.take k) i = w.checkAt checks i := by
  unfold checkAt
  rw [List.getElem?_take_of_lt hi, List.take_take, Nat.min_eq_left (Nat.le_of_lt hi)]

/-- Where a watchdog that is on stands after some checks, which made these crossings. -/
structure Past (w : Watchdog) (checks : List Answers) (found : List Crossing) : Prop where
  limit_eq : (w.after checks).limit = w.limit
  cores_eq : (w.after checks).cores = w.cores
  tallied : (w.after checks).Tallied
  flags : (w.after checks).Found found
  mem_iff : ∀ c, c ∈ found ↔ ∃ v events,
    w.checkAt checks c.step = some (v, events) ∧ c.trip ∈ (v.check events).trips

theorem Past.enabled {found : List Crossing} (h : w.Past checks found) (hon : w.enabled = true) :
    (w.after checks).enabled = true := by
  rwa [Watchdog.enabled, h.limit_eq]

/-- One more check adds its trips to the crossings. -/
theorem Past.concat {found : List Crossing} (h : w.Past checks found) (hon : w.enabled = true) :
    w.Past (checks ++ [events]) (found ++
      ((w.after checks).check events).trips.map (Crossing.mk checks.length)) := by
  have hon' := h.enabled hon
  obtain ⟨hlimit, hcores⟩ : (w.after (checks ++ [events])).limit = (w.after checks).limit ∧
      (w.after (checks ++ [events])).cores = (w.after checks).cores := by
    rw [after_concat]
    exact limit_check hon'
  refine ⟨hlimit.trans h.limit_eq, hcores.trans h.cores_eq, ?_, ?_, fun c => ?_⟩
  · rw [after_concat]
    exact h.tallied.check hon'
  · rw [after_concat]
    exact h.flags.check hon'
  · simp only [checkAt_concat, List.mem_append, h.mem_iff, List.mem_map]
    constructor
    · rintro (⟨v, events', hs, htrip⟩ | ⟨trip, htrip, rfl⟩)
      · exact ⟨v, events', .inl hs, htrip⟩
      · exact ⟨_, _, .inr ⟨rfl, rfl, rfl⟩, htrip⟩
    · rintro ⟨v, events', hs | ⟨hstep, rfl, rfl⟩, htrip⟩
      · exact .inl ⟨v, events', hs, htrip⟩
      · exact .inr ⟨c.trip, htrip, by rw [← hstep]⟩

theorem exists_past {cores : Int} (hcreate : create limit cores = .ok w) (hon : w.enabled = true)
    (checks : List Answers) : ∃ found, w.Past checks found := by
  induction checks using List.reverseRecOn with
  | nil =>
    refine ⟨[], rfl, rfl, (tallied_create hcreate).1, found_create hcreate, fun c => ?_⟩
    simp [checkAt]
  | append_singleton checks events ih =>
    obtain ⟨found, h⟩ := ih
    exact ⟨_, h.concat hon⟩

/-! ## First crossings -/

/-- Check number `i` saw the core above the ceiling, with this event. -/
def Crosses (w : Watchdog) (checks : List Answers) (i core : Nat) (event : TrapEvent) : Prop :=
  ∃ v events, w.checkAt checks i = some (v, events) ∧ v.Shows events core event ∧
    w.limit < event.instrs

/-- Check number `i` was the first that did. -/
def FirstCrosses (w : Watchdog) (checks : List Answers) (i core : Nat) (event : TrapEvent) : Prop :=
  w.Crosses checks i core event ∧ ∀ j < i, ∀ event', ¬ w.Crosses checks j core event'

theorem crosses_take {k : Nat} (hi : i < k) :
    w.Crosses (checks.take k) i core event ↔ w.Crosses checks i core event := by
  unfold Crosses
  rw [checkAt_take hi]

/-- A core has a flag after a check if it had one, or if the check saw it above the ceiling. -/
theorem Found.isTrapped_check {found : List Crossing} (h : w.Found found) (hon : w.enabled = true) :
    (w.check events).watchdog.isTrapped core = true ↔ w.isTrapped core = true ∨
      ∃ event, w.Shows events core event ∧ w.limit < event.instrs := by
  rw [h.check_flagged hon, List.mem_map]
  by_cases hflag : w.isTrapped core = true
  · simp [hflag]
  · rw [or_iff_right hflag, or_iff_right hflag]
    constructor
    · rintro ⟨trip, htrip, rfl⟩
      obtain ⟨event, -, hshows, habove, -⟩ := (mem_trips hon).mp htrip
      exact ⟨event, hshows, habove⟩
    · rintro ⟨event, hshows, habove⟩
      exact ⟨{ core, event, cpi := event.cpi },
        (mem_trips hon).mpr ⟨event, by simpa using hflag, hshows, habove, rfl⟩, rfl⟩

/-- The flagged cores are those that some check saw above the ceiling. -/
theorem isTrapped_after {cores : Int} (hcreate : create limit cores = .ok w)
    (hon : w.enabled = true) (checks : List Answers) :
    (w.after checks).isTrapped core = true ↔ ∃ i event, w.Crosses checks i core event := by
  induction checks using List.reverseRecOn with
  | nil =>
    have hnone := (tallied_create hcreate).2.2.2.2.2 core
    simp [after, Crosses, checkAt, hnone]
  | append_singleton checks events ih =>
    obtain ⟨found, h⟩ := exists_past hcreate hon checks
    rw [after_concat, h.flags.isTrapped_check (h.enabled hon), ih, h.limit_eq]
    simp only [Crosses, checkAt_concat]
    constructor
    · rintro (⟨i, event, v, events', hat, hsees⟩ | ⟨event, hsees⟩)
      · exact ⟨i, event, v, events', .inl hat, hsees⟩
      · exact ⟨_, event, _, _, .inr ⟨rfl, rfl, rfl⟩, hsees⟩
    · rintro ⟨i, event, v, events', hat | ⟨-, rfl, rfl⟩, hsees⟩
      · exact .inl ⟨i, event, v, events', hat, hsees⟩
      · exact .inr ⟨event, hsees⟩

/-- The first check that saw a core above the ceiling found it without a flag. -/
theorem firstCrosses_iff {cores : Int} (hcreate : create limit cores = .ok w)
    (hon : w.enabled = true) :
    w.FirstCrosses checks i core event ↔
      w.Crosses checks i core event ∧ (w.after (checks.take i)).isTrapped core = false := by
  refine and_congr_right fun _ => ?_
  rw [← Bool.not_eq_true, isTrapped_after hcreate hon, not_exists]
  constructor
  · rintro hnone j ⟨event', hcross⟩
    have hlt : j < i := by
      obtain ⟨v, events, hat, -⟩ := hcross
      have := (List.getElem?_eq_some_iff.mp (checkAt_eq_some.mp hat).1).1
      rw [List.length_take] at this
      omega
    exact hnone j hlt event' ((crosses_take hlt).mp hcross)
  · intro hnone j hlt event' hcross
    exact hnone j ⟨event', (crosses_take hlt).mpr hcross⟩

/-- A trip is a first crossing. -/
theorem mem_trips_iff_firstCrosses {cores : Int} (hcreate : create limit cores = .ok w)
    (hon : w.enabled = true) (hat : w.checkAt checks i = some (v, events)) {trip : Trip} :
    trip ∈ (v.check events).trips ↔ ∃ event, w.FirstCrosses checks i trip.core event ∧
      trip = { core := trip.core, event, cpi := event.cpi } := by
  obtain ⟨-, rfl⟩ := checkAt_eq_some.mp hat
  obtain ⟨found, h⟩ := exists_past hcreate hon (checks.take i)
  simp only [mem_trips (h.enabled hon), firstCrosses_iff hcreate hon, h.limit_eq]
  refine exists_congr fun event => ⟨?_, ?_⟩
  · rintro ⟨hfree, hshows, habove, htrip⟩
    exact ⟨⟨⟨_, _, hat, hshows, habove⟩, hfree⟩, htrip⟩
  · rintro ⟨⟨⟨v, events', hat', hshows, habove⟩, hfree⟩, htrip⟩
    obtain ⟨rfl, rfl⟩ := Prod.mk.inj (Option.some.inj (hat.symm.trans hat'))
    exact ⟨hfree, hshows, habove, htrip⟩

/-- The number kept with a flag is that of the first crossing, from then on. -/
theorem cpi_of_firstCrosses {cores : Int} (hcreate : create limit cores = .ok w)
    (hon : w.enabled = true) (hfirst : w.FirstCrosses checks i core event) :
    (w.after checks).info.cpi[core]? = some event.cpi := by
  obtain ⟨found, h⟩ := exists_past hcreate hon checks
  obtain ⟨v, events, hat, -⟩ := hfirst.1
  let trip : Trip := { core, event, cpi := event.cpi }
  have htrip : trip ∈ (v.check events).trips :=
    (mem_trips_iff_firstCrosses hcreate hon hat).mpr ⟨event, hfirst, rfl⟩
  have hmem := (h.mem_iff ⟨i, trip⟩).mpr ⟨v, events, hat, htrip⟩
  exact h.flags.cpi_eq _ hmem

/-! ## All of it -/

/-- Without a ceiling nothing is asked and nothing is marked. -/
structure Idle (w : Watchdog) (checks : List Answers) : Prop where
  after_eq : w.after checks = w
  unmarked : ∀ core, w.isTrapped core = false
  count_eq : w.info.count = 0
  allTrapped_eq : w.allTrapped = false
  asks_nothing : ∀ i v events, w.checkAt checks i = some (v, events) →
    (v.check events).asked = [] ∧ (v.check events).trips = [] ∧ (v.check events).fault = none ∧
      ∀ events', v.check events' = v.check events

/-- What some checks on a watchdog that is on have marked. -/
structure MarkedOnce (w : Watchdog) (checks : List Answers) : Prop where
  flagged_iff : ∀ core, (w.after checks).isTrapped core = true ↔
    ∃ i event, w.Crosses checks i core event
  /-- The number of the first crossing is there right after it, and ever after. -/
  cpi_eq : ∀ i core event, w.FirstCrosses checks i core event →
    ∀ k, i < k → (w.after (checks.take k)).info.cpi[core]? = some event.cpi
  trips_iff : ∀ i v events, w.checkAt checks i = some (v, events) → ∀ trip,
    trip ∈ (v.check events).trips ↔ ∃ event, w.FirstCrosses checks i trip.core event ∧
      trip = { core := trip.core, event, cpi := event.cpi }
  trips_sorted : ∀ i v events, w.checkAt checks i = some (v, events) →
    ((v.check events).trips.map Trip.core).Pairwise (· < ·)
  asks : ∀ i v events, w.checkAt checks i = some (v, events) →
    (v.check events).Asks events v.free
  /-- What a core that has a flag would answer makes no difference. -/
  never_asked : ∀ i v events events', w.checkAt checks i = some (v, events) →
    (∀ core, v.isTrapped core = false → events' core = events core) →
      v.check events' = v.check events
  count_eq : (w.after checks).info.count = (List.range w.cores).countP (w.after checks).isTrapped
  allTrapped_iff : (w.after checks).allTrapped = true ↔
    ∀ core < w.cores, (w.after checks).isTrapped core = true

theorem idle_of_off {cores : Int} (hcreate : create limit cores = .ok w) (hoff : w.enabled = false)
    (checks : List Answers) : w.Idle checks := by
  have hcheck : ∀ events, w.check events = { watchdog := w } := by
    intro events
    simp [check, hoff]
  have hafter : ∀ checks, w.after checks = w := by
    intro checks
    induction checks using List.reverseRecOn with
    | nil => rfl
    | append_singleton checks events ih => rw [after_concat, ih, hcheck]
  obtain ⟨-, -, -, -, -, hfree⟩ := tallied_create hcreate
  refine ⟨hafter checks, hfree, (found_create hcreate).count_eq, by simp [allTrapped, hoff], ?_⟩
  intro i v events hat
  obtain rfl : w = v := by rw [← hafter (checks.take i), (checkAt_eq_some.mp hat).2]
  refine ⟨by rw [hcheck], by rw [hcheck], by rw [hcheck], fun events' => ?_⟩
  rw [hcheck, hcheck]

theorem Tallied.count_eq (h : w.Tallied) :
    w.info.count = (List.range w.cores).countP w.isTrapped := by
  have hflags : w.info.trapped.toList = (List.range w.cores).map w.isTrapped := by
    refine List.ext_getElem (by simp [cores]) fun core hcore _ => ?_
    rw [Array.length_toList] at hcore
    simp [isTrapped, Array.getD_eq_getD_getElem?, hcore]
  rw [h, hflags, List.count, List.countP_map]
  simp [Function.comp_def]

theorem markedOnce_of_on {cores : Int} (hcreate : create limit cores = .ok w)
    (hon : w.enabled = true) (checks : List Answers) : w.MarkedOnce checks := by
  have hpast : ∀ i v events, w.checkAt checks i = some (v, events) → v.enabled = true := by
    intro i v events hat
    obtain ⟨-, rfl⟩ := checkAt_eq_some.mp hat
    obtain ⟨found, h⟩ := exists_past hcreate hon (checks.take i)
    exact h.enabled hon
  obtain ⟨found, h⟩ := exists_past hcreate hon checks
  refine ⟨fun core => isTrapped_after hcreate hon checks, ?_, ?_, ?_, ?_, ?_, ?_, ?_⟩
  · intro i core event hfirst k hk
    refine cpi_of_firstCrosses hcreate hon ⟨(crosses_take hk).mpr hfirst.1, fun j hj event' => ?_⟩
    rw [crosses_take (Nat.lt_trans hj hk)]
    exact hfirst.2 j hj event'
  · intro i v events hat trip
    exact mem_trips_iff_firstCrosses hcreate hon hat
  · intro i v events hat
    rw [check_eq (hpast i v events hat)]
    exact List.pairwise_lt_range.sublist (sweep_sublist v events _)
  · intro i v events hat
    exact check_asks (hpast i v events hat)
  · intro i v events events' _ hsame
    exact check_congr hsame
  · rw [h.tallied.count_eq, h.cores_eq]
  · rw [allTrapped_iff h.tallied, h.cores_eq, and_iff_right (h.enabled hon)]

/-- Whatever the cores answer, in any number of checks: a watchdog without a ceiling asks nothing
and marks nothing, and one with a ceiling marks each core at the first check that sees it above
the ceiling, and never again. -/
theorem marks_each_core_once (limit : UInt64) (cores : Int) (w : Watchdog)
    (hcreate : create limit cores = .ok w) (checks : List Answers) :
    w.limit = limit ∧ (w.cores : Int) = cores ∧ (limit = 0 → w.Idle checks) ∧
      (limit ≠ 0 → w.MarkedOnce checks) := by
  obtain ⟨-, hlimit, hlow, hcores, -⟩ := tallied_create hcreate
  refine ⟨hlimit, by omega, fun hzero => ?_, fun hnonzero => ?_⟩
  · exact idle_of_off hcreate (by simp [enabled, hlimit, hzero]) checks
  · exact markedOnce_of_on hcreate (by simp [enabled, hlimit, hnonzero]) checks

/-- Three cores under a ceiling of 5.  The first check finds core 0 at the ceiling and core 1 above
it, and is cut short by core 2.  The second finds core 0 far above; core 1, which would not
answer, is not asked. -/
theorem marks_each_core_once_cut_short :
    let crossing : TrapEvent := { cycles := 12, instrs := 6 }
    let first : Answers := fun core =>
      if core = 0 then .ok { instrs := 5 }
      else if core = 1 then .ok crossing
      else .error (.index 2 2)
    let second : Answers := fun core =>
      if core = 0 then .ok { instrs := 18446744073709551615 }
      else if core = 1 then .error (.index 1 1) else .ok {}
    ∃ w, create 5 3 = .ok w ∧ w.MarkedOnce [first, second] ∧
      (w.check first).fault = some (.index 2 2) ∧ (w.after [first]).info.count = 1 ∧
      ((w.after [first]).check second).asked = [0, 2] ∧
      ((w.after [first]).check second).trips.map Trip.core = [0] ∧
      (w.after [first, second]).info.count = 2 ∧
      (w.after [first, second]).info.cpi[1]? = some crossing.cpi ∧
      (w.after [first, second]).allTrapped = false := by
  intro crossing first second
  obtain ⟨-, -, -, hmarks⟩ := marks_each_core_once 5 3 _ rfl [first, second]
  have honce := hmarks (by decide)
  refine ⟨_, rfl, honce, rfl, rfl, rfl, rfl, rfl,
    honce.cpi_eq 0 1 crossing ⟨?_, by simp⟩ 2 (by simp), rfl⟩
  refine ⟨_, first, rfl, ⟨by decide, rfl, fun other hother _ => ?_⟩, by decide⟩
  obtain rfl : other = 0 := by omega
  rfl

end Cosim.Watchdog

import Cosim.Proofs.Statistics
import Cosim.Proofs.Twins

/-!
# How often statistics are shown

The statistics of a core are shown when the core crosses the ceiling and when the run ends.
To count the displays, any oracle can be made to mark them in the journal.

* `Marked σ` behaves like `σ`, says nothing in the journal of its own, and marks each
  display there; `displays` reads the marks back.
  It is a twin of `σ`, so that every run has its counterpart with marks.
* `Session.Shows` lists the displays of a critical section, and `Session.Counted` says how
  many there have been.
-/

namespace Cosim

/-- An oracle that marks each display in the journal. -/
structure Marked (σ : Type) where
  own : σ

namespace Marked

/-- The mark of a display. -/
def mark (core : Nat) : Entry :=
  { level := .debug, message := "statistics", fields := [("core", .int core)] }

/-- The core that an entry marks a display of. -/
def ofEntry : Entry → Option Nat
  | { level := .debug, fields := [(_, .int core)], .. } => some core.toNat
  | _ => none

variable {σ : Type} [Oracle σ]

instance : Oracle (Marked σ) where
  begin o := ⟨Oracle.begin o.own⟩
  poll o cancelled :=
    (Oracle.poll o.own cancelled).map fun answer =>
      { oracle := ⟨answer.oracle⟩, result := answer.result }
  trapState o := Oracle.trapState o.own
  event o core := Oracle.event o.own core
  display o core := (⟨(Oracle.display o.own core).1⟩, [mark core])

instance : Oracle.Twin (Marked σ) σ where
  own := own
  replace _ inner := ⟨inner⟩
  own_replace _ _ := rfl
  own_begin _ := rfl
  poll_eq _ _ := Option.map_map _ _ _
  trapState_own _ := rfl
  event_own _ _ := rfl
  own_display _ _ := rfl

end Marked

/-- The cores whose display a journal marks, in order. -/
def displays (journal : Journal) : List Nat := journal.filterMap Marked.ofEntry

theorem displays_append (journal entries : Journal) :
    displays (journal ++ entries) = displays journal ++ displays entries :=
  List.filterMap_append

/-- Only entries for debugging are marks. -/
theorem displays_concat (journal : Journal) {entry : Entry} (hlevel : entry.level ≠ .debug) :
    displays (journal ++ [entry]) = displays journal := by
  obtain ⟨level, message, fields⟩ := entry
  rw [displays_append, show displays [{ level, message, fields }] = [] from ?_, List.append_nil]
  cases level with
  | debug => exact absurd rfl hlevel
  | error | warning | info => rfl

namespace Session

variable {σ : Type} {m : Session (Marked σ)}

/-! ## The displays of a critical section -/

theorem displays_transition (m : Session (Marked σ)) (status : RunStatus) (code : Int)
    (cause : Cause) (failure : Option Error) :
    displays (m.transition status code cause failure).journal = displays m.journal := by
  unfold transition
  dsimp only
  split
  · cases failure with
    | none => exact displays_concat m.journal (by simp)
    | some e => exact displays_concat m.journal (by simp)
  · rfl

theorem displays_foldl {α : Type} {f : Session (Marked σ) → α → Session (Marked σ)}
    {g : α → Nat}
    (hstep : ∀ m a, displays (f m a).journal = displays m.journal ++ [g a]) (l : List α)
    (m : Session (Marked σ)) :
    displays (l.foldl f m).journal = displays m.journal ++ l.map g := by
  induction l generalizing m with
  | nil => simp
  | cons a l ih => simp [ih, hstep]

variable [Oracle σ]

theorem displays_present (m : Session (Marked σ)) (core : Nat) :
    displays (m.present core).journal = displays m.journal ++ [core] :=
  displays_append m.journal [Marked.mark core]

theorem displays_dump (hfresh : m.run.dumped = false) :
    displays m.dump.journal = displays m.journal ++ List.range m.run.cores := by
  rw [dump, if_neg (by simp [hfresh]), displays_foldl (g := id) (fun m core => ?_), List.map_id]
  exact displays_present (m.setFinal core _) core

theorem displays_noteTrap (m : Session (Marked σ)) (code : Int) (core : Nat) :
    displays (m.noteTrap code core).journal = displays m.journal ++ [core] := by
  unfold noteTrap
  dsimp only
  rw [displays_present]
  refine congrArg (· ++ [core]) (displays_concat m.journal ?_)
  split <;> simp

theorem displays_endByTrap (m : Session (Marked σ)) (code : Int) :
    displays (m.endByTrap code).journal = displays m.journal ++ List.range m.run.cores := by
  have hnoted := displays_foldl (g := id) (fun m core => displays_noteTrap m code core)
    (List.range m.run.cores) { m with run := { m.run with dumped := true } }
  rw [List.map_id] at hnoted
  unfold endByTrap
  dsimp only
  split
  · exact (displays_transition ..).trans hnoted
  · exact (displays_transition ..).trans hnoted

theorem displays_noteTrip (m : Session (Marked σ)) (trip : Trip) :
    displays (m.noteTrip trip).journal = displays m.journal ++ [trip.core] := by
  unfold noteTrip
  dsimp only
  rw [displays_present]
  exact congrArg (· ++ [trip.core]) (displays_concat m.journal (by simp))

theorem displays_watch (hon : m.run.watchdog.enabled = true) :
    displays m.watch.journal = displays m.journal ++
      (m.run.watchdog.check fun core => .ok (Oracle.event m.oracle core)).trips.map Trip.core := by
  have hnoted := displays_foldl displays_noteTrip
    (m.run.watchdog.check fun core => .ok (Oracle.event m.oracle core)).trips
    { m with run := { m.run with
      watchdog := (m.run.watchdog.check fun core => .ok (Oracle.event m.oracle core)).watchdog } }
  unfold watch
  rw [if_pos hon]
  dsimp only
  split
  · exact (displays_transition ..).trans hnoted
  · exact hnoted

variable {m' : Session (Marked σ)} {limit : UInt64} {cores : Nat} {found : List Crossing}

/-- A critical section displays these cores, and keeps their events. -/
def Shows (m m' : Session (Marked σ)) : Prop :=
  ∃ shown, m.Keeps m'.run shown ∧ displays m'.journal = displays m.journal ++ shown

theorem shows_nothing (hrun : m'.run = m.run)
    (hjournal : displays m'.journal = displays m.journal) : m.Shows m' :=
  ⟨[], .nothing (by rw [hrun]) (by rw [hrun]) (by rw [hrun]), by rw [hjournal, List.append_nil]⟩

theorem shows_dump (h : m.run.Filed limit cores found) : m.Shows m.dump := by
  cases hdumped : m.run.dumped with
  | true =>
    obtain ⟨-, -, -, hsame⟩ := m.run_dump
    rw [hsame hdumped]
    exact shows_nothing rfl rfl
  | false => exact ⟨_, keeps_dump h hdumped, displays_dump hdumped⟩

theorem shows_fail (h : m.run.Filed limit cores found) (hrun : m.run.isRunning = true)
    {cause : Cause} (hcause : cause ≠ .instrLimit) (e : Error) :
    m.Shows (m.transition .failed trapRunning cause (some e)).dump := by
  refine ⟨_, keeps_fail h hrun hcause e, ?_⟩
  rw [displays_dump, displays_transition, Run.cores, final_transition]
  · rfl
  · rw [run_transition hrun]
    exact (h.going hrun).1

theorem shows_watch (h : m.run.Filed limit cores found) (hrun : m.run.isRunning = true) :
    m.Shows m.watch := by
  cases hon : m.run.watchdog.enabled with
  | true => exact ⟨_, keeps_watch h hrun hon, displays_watch hon⟩
  | false =>
    rw [watch_of_off hon]
    exact shows_nothing rfl rfl

theorem shows_finish (h : m.run.Filed limit cores found) : m.Shows m.finish := by
  unfold finish
  split
  · exact shows_nothing rfl rfl
  · exact shows_dump h

theorem shows_abort (m : Session (Marked σ)) (e : Error) : m.Shows (m.abort e) := by
  obtain ⟨hfinal, hdumped, hwatchdog⟩ := m.kept_abort e
  exact ⟨[], .nothing hfinal hdumped hwatchdog, by rw [abort, displays_transition, List.append_nil]⟩

theorem Shows.of_counted (h : m.counted.Shows m') : m.Shows m' := by
  obtain ⟨shown, hkeeps, hshown⟩ := h
  exact ⟨shown, hkeeps.of_counted, hshown⟩

theorem shows_conclude (h : m.run.Filed limit cores found) (result : Except Error Bool)
    (cancelled : Bool) : m.Shows (m.conclude result cancelled) := by
  have hcounted : m.counted.run.Filed limit cores found := h.count
  have hconsequence := m.consequence_conclude result cancelled
  generalize m.conclude result cancelled = t at hconsequence
  cases hconsequence with
  | late => exact shows_dump h
  | excused => exact shows_nothing rfl rfl
  | failed hrun e => exact shows_fail h hrun (by simp) _
  | mismatched hrun => exact (shows_fail hcounted hrun (by simp) _).of_counted
  | trapped hrun code =>
    exact Shows.of_counted ⟨_, keeps_endByTrap hcounted hrun code, displays_endByTrap _ code⟩
  | watched hrun => exact (shows_watch hcounted hrun).of_counted

/-! ## How many displays there have been -/

/-- The displays so far: one for each flagged core, and one for each core once all have been
shown. -/
def Counted (cores : Nat) (m : Session (Marked σ)) : Prop :=
  ∀ core, (displays m.journal).count core =
    (m.run.watchdog.isTrapped core).toNat + (m.run.surveyed && decide (core < cores)).toNat

omit [Oracle σ] in
theorem counted_start {run : Run} (hgoing : run.isRunning = true)
    (hfiled : run.Filed limit cores []) (oracle : Marked σ) : Counted cores { run, oracle } := by
  intro core
  rw [hfiled.free, Run.surveyed_of_not_dumped (hfiled.going hgoing).1]
  rfl

theorem Counted.shows (h : m.Counted cores) (hfiled : m.run.Filed limit cores found)
    (hsection : m.Section m') (hshows : m.Shows m') : m'.Counted cores := by
  intro core
  obtain ⟨shown, hkeeps, hjournal⟩ := hshows
  rw [hjournal, List.count_append, h core]
  cases hkeeps with
  | nothing _ hdumped hwatchdog =>
    have hsame : m'.run.surveyed = m.run.surveyed := by
      cases hshown : m.run.dumped with
      | true => exact (hsection.frozen hfiled hshown).2.2
      | false => simp [Run.surveyed, hdumped, hshown]
    simp [hwatchdog, hsame]
  | all _ hfresh hafter hwatchdog =>
    rw [hwatchdog, hafter, Run.surveyed_of_not_dumped hfresh, hfiled.cores_eq,
      List.count_range]
    by_cases hcore : core < cores <;> simp [hcore]
  | crossings hrun hon sweep hsweep _ hafter hwatchdog =>
    subst hsweep
    let sweep := m.run.watchdog.check fun core => .ok (Oracle.event m.oracle core)
    have hflags : sweep.watchdog.isTrapped core = true ↔
        m.run.watchdog.isTrapped core = true ∨ core ∈ sweep.trips.map Trip.core :=
      hfiled.flags.check_flagged hon core
    rw [hwatchdog, hafter, Run.surveyed_of_not_dumped (hfiled.going hrun).1,
      (Watchdog.check_nodup hon).count]
    by_cases hmem : core ∈ sweep.trips.map Trip.core
    · have hfree : m.run.watchdog.isTrapped core = false :=
        Bool.eq_false_iff.mpr fun hflag => Watchdog.not_mem_trips hon hflag hmem
      rw [if_pos hmem, hfree, hflags.mpr (.inr hmem)]
      rfl
    · rw [if_neg hmem, Bool.eq_iff_iff.mpr (hflags.trans (or_iff_left hmem))]
      rfl

end Session

namespace Control

variable {σ : Type} [Oracle σ] {c c' : Control σ} {m m' : Control (Marked σ)} {limit : UInt64}
  {cores : Nat} {found : List Crossing}

/-- Every move displays what it keeps. -/
theorem Move.shows (h : Move m m') (hfiled : m.session.run.Filed limit cores found) :
    m.session.Shows m'.session := by
  cases h with
  | enter | begin | work => exact Session.shows_nothing rfl rfl
  | enterLate => exact Session.shows_dump hfiled
  | answer cancelled hpos hpoll =>
    obtain ⟨own, -, rfl⟩ := Option.map_eq_some_iff.mp hpoll
    exact Session.shows_nothing rfl (congrArg displays (List.append_nil _))
  | conclude cancelled => exact Session.shows_conclude hfiled _ cancelled
  | finish => exact Session.shows_finish hfiled
  | abort e => exact m.session.shows_abort e

theorem counted_of_reach (hreach : Reach m m') (hfiled : m.session.run.Filed limit cores found)
    (h : m.session.Counted cores) : m'.session.Counted cores := by
  induction hreach with
  | refl => exact h
  | tail hreach hmove ih =>
    obtain ⟨found', -, hfiled'⟩ := (leads_of_reach hreach).filed hfiled
    exact ih.shows hfiled' hmove.isSection (hmove.shows hfiled')

/-! ## What is shown and kept -/

/-- The statistics of a run of so many cores under a ceiling, on its way from `start` to
`c`. -/
structure Accounted (limit : UInt64) (cores : Nat) (start c : Control σ) : Prop where
  /-- All statistics are shown only after the run has ended. -/
  ended : c.session.run.dumped = true → c.session.run.isRunning = false
  /-- They are shown once. -/
  once : c.session.run.dumped = true → ∀ c', Reach c c' →
    c'.session.run.dumped = true ∧ c'.session.run.final = c.session.run.final
  /-- What ends the run shows them in the same critical section, except for an abort. -/
  at_once : ∀ c', Move c c' → c.session.run.isRunning = true →
    c'.session.run.isRunning = false →
      c'.session.run.dumped = true ∨ ∃ e, c' = { c with session := c.session.abort e }
  /-- After an abort the next step or the next call to finish shows them, and nothing else
  does. -/
  pending : c.session.run.isRunning = false → c.session.run.dumped = false →
    (c.session.run.outcome.cause = some .fatal ∧
        ∃ e, c.session.run.outcome.failure = some (.fatal none e)) ∧
      (∀ cancelled, (c.session.step cancelled).1.run.dumped = true) ∧
      (∀ result cancelled, (c.session.conclude result cancelled).run.dumped = true) ∧
      c.session.finish.run.dumped = true ∧
      (∀ n cancelled, c.session.steps n cancelled = (c.session, none)) ∧
      ∀ e, c.session.abort e = c.session
  /-- Once all statistics have been shown, other than by the last core crossing the ceiling,
  the run keeps what the oracle said about each core at that show. -/
  shown : c.session.run.surveyed = true →
    (∃ before after, Passes Move start before after c ∧ before.session.run.dumped = false ∧
        after.session.run.dumped = true) ∧
      ∀ before after, Passes Move start before after c → before.session.run.dumped = false →
        after.session.run.dumped = true →
          c.session.run.final =
              (Oracle.survey before.session.oracle (List.range cores)).toArray ∧
            ((∀ (o : σ) shown core,
                Oracle.event (Oracle.display o shown).1 core = Oracle.event o core) →
              ∀ core < cores,
                c.session.run.final[core]? = some (Oracle.event before.session.oracle core))
  /-- Until then it keeps what the oracle said about a flagged core when the core crossed the
  ceiling. -/
  crossed : ∀ core, c.session.run.watchdog.isTrapped core = true →
    (∃ before after, Passes Move start before after c ∧
        before.session.run.watchdog.isTrapped core = false ∧
        after.session.run.watchdog.isTrapped core = true) ∧
      ∀ before after, Passes Move start before after c →
        before.session.run.watchdog.isTrapped core = false →
        after.session.run.watchdog.isTrapped core = true →
          limit < (Oracle.event before.session.oracle core).instrs ∧
            (c.session.run.surveyed = false →
              c.session.run.final[core]? = some (Oracle.event before.session.oracle core))
  /-- Until then nothing is known of the other cores. -/
  blank : c.session.run.surveyed = false → ∀ core < cores,
    c.session.run.watchdog.isTrapped core = false → c.session.run.final[core]? = some {}

/-- What ends the run shows its statistics, unless it is an abort. -/
theorem Move.dumped (h : Move c c') (hrun : c.session.run.isRunning = true)
    (hend : c'.session.run.isRunning = false) :
    c'.session.run.dumped = true ∨ ∃ e, c' = { c with session := c.session.abort e } := by
  cases h with
  | enter | begin | answer | work => exact absurd (hrun.symm.trans hend) (by simp)
  | enterLate _ hover => exact absurd (hrun.symm.trans hover) (by simp)
  | conclude cancelled => exact .inl (Session.dumped_of_conclude hrun hend)
  | finish =>
    rw [Session.finish, if_pos hrun] at hend
    exact absurd (hrun.symm.trans hend) (by simp)
  | abort e => exact .inr ⟨e, rfl⟩

theorem accounted_of_reach {start : Control σ} (hgoing : start.session.run.isRunning = true)
    (hfiled : start.session.run.Filed limit cores []) (hreach : Reach start c) :
    Accounted limit cores start c := by
  have hfresh := (hfiled.going hgoing).1
  have hleads := leads_of_reach hreach
  obtain ⟨found, -, hfiled'⟩ := hleads.filed hfiled
  refine ⟨hfiled'.ended, fun hdumped c' hon => ?_, fun c' hmove => hmove.dumped,
    fun hend hpending => ?_, fun hsurveyed => ⟨?_, ?_⟩, fun core hflag => ⟨?_, ?_⟩, hfiled'.blank⟩
  · obtain ⟨hfinal, hstill, -⟩ := (leads_of_reach hon).frozen hfiled' hdumped
    exact ⟨hstill, hfinal⟩
  · refine ⟨hfiled'.pending hend hpending, fun cancelled => ?_, fun result cancelled => ?_, ?_,
      fun n cancelled => ?_, fun e => Session.transition_of_ended hend ..⟩
    · rw [Session.step_of_ended _ hend]
      exact c.session.dumped_dump
    · rw [Session.conclude_of_ended _ hend]
      exact c.session.dumped_dump
    · rw [Session.finish, if_neg (by simp [hend])]
      exact c.session.dumped_dump
    · simp [Session.steps, hend]
  · exact exists_passes (f := fun c => c.session.run.dumped) hreach hfresh
      (Bool.and_eq_true_iff.mp hsurveyed).1
  · rintro before after ⟨hto, hmove, hfrom⟩ hnot hshown
    obtain ⟨found', -, hbefore⟩ := (leads_of_reach hto).filed hfiled
    have hfinal := Session.final_of_shown hbefore hmove.isSection (leads_of_reach hfrom) hnot hshown
      hsurveyed
    refine ⟨hfinal, fun hsame core hcore => ?_⟩
    rw [hfinal, Oracle.survey_eq_map hsame]
    simp [hcore]
  · exact exists_passes (f := fun c => c.session.run.watchdog.isTrapped core) hreach
      (hfiled.free core) hflag
  · rintro before after ⟨hto, hmove, hfrom⟩ hnot hcrossed
    obtain ⟨found', -, hbefore⟩ := (leads_of_reach hto).filed hfiled
    obtain ⟨habove, -, -, hkept⟩ :=
      Session.crossing_kept hbefore hmove.isSection (leads_of_reach hfrom) hnot hcrossed
    exact ⟨habove, hkept⟩

/-- Statistics are shown once for each crossing of the ceiling and once at the end, and the
events that a run keeps are those of these shows.  The displays are counted in the twin of
the run that marks them; the calls that step a session are made of the moves considered. -/
theorem statistics_accounted (limit : UInt64) (cores : Int) (trace : Option Trace) (oracle : σ)
    (run : Run) (hrun : Run.create limit cores trace = .ok run) (c : Control σ)
    (hreach : Reach { session := { run, oracle } } c) :
    Accounted limit cores.toNat { session := { run, oracle } } c ∧
      (∃ m : Control (Marked σ),
        Reach { session := { run, oracle := ⟨oracle⟩ } } m ∧ m.Mirrors c) ∧
      (∀ m : Control (Marked σ), Reach { session := { run, oracle := ⟨oracle⟩ } } m →
        ∀ core, (displays m.session.journal).count core =
          (m.session.run.watchdog.isTrapped core).toNat +
            (m.session.run.surveyed && decide (core < cores.toNat)).toNat) ∧
      (c.position = .idle → ∀ cancelled,
        (∃ calls, Reach c (landed (c.session.step cancelled) calls)) ∧
          ∀ n, ∃ calls, Reach c (landed (c.session.steps n cancelled) calls)) ∧
      (c.position = .flying → ∀ cancelled left, ∃ calls,
        Reach c (landed (c.session.fly cancelled left) calls)) := by
  obtain ⟨hgoing, hfiled⟩ := Run.filed_create hrun
  refine ⟨accounted_of_reach hgoing hfiled hreach, Mirrors.reach ⟨⟨rfl, rfl⟩, rfl, rfl⟩ hreach,
    fun m hm => counted_of_reach hm hfiled (Session.counted_start hgoing hfiled _), c.reach_calls⟩

/-- One core of two crosses the ceiling in the first step, and the run is aborted while the
oracle works on the second: the answer is dropped and shows all statistics.  The core that
crossed the ceiling has been shown twice, the other once, and both are kept as they are at
the end. -/
theorem statistics_accounted_trip_then_abort :
    ∃ (run : Run) (c : Control Script) (m : Control (Marked Script)),
      Run.create 5 2 none = .ok run ∧
      Reach
        { session :=
            { run
              oracle :=
                { cues :=
                    [{ events := some #[{ instrs := 6 }, { instrs := 1 }] },
                      { events := some #[{ instrs := 8 }, { instrs := 2 }] }] } } } c ∧
      c.session.run.outcome.cause = some .fatal ∧
      c.session.run.final = #[{ instrs := 8 }, { instrs := 2 }] ∧
      m.Mirrors c ∧ (displays m.session.journal).count 0 = 2 ∧
      (displays m.session.journal).count 1 = 1 := by
  let run : Run :=
    { watchdog := { limit := 5, info := { trapped := #[false, false], cpi := #[0, 0] } }
      final := #[{}, {}] }
  let script : Script :=
    { cues :=
        [{ events := some #[{ instrs := 6 }, { instrs := 1 }] },
          { events := some #[{ instrs := 8 }, { instrs := 2 }] }] }
  have hrun : Run.create 5 2 none = .ok run := rfl
  obtain ⟨calls, hstep⟩ := reach_step false ({ run, oracle := script } : Session Script) 0
  have hfirst : (({ run, oracle := script } : Session Script).step false).2 = none ∧
      (({ run, oracle := script } : Session Script).step false).1.run.isRunning = true := by
    decide +kernel
  have hsecond :
      let last := (((({ run, oracle := script } : Session Script).step false).1.launch.abort
        (.text "worker failed")).fly false 0).1.run
      last.outcome.cause = some .fatal ∧ last.final = #[{ instrs := 8 }, { instrs := 2 }] ∧
        last.surveyed = true ∧ last.watchdog.isTrapped 0 = true ∧
        last.watchdog.isTrapped 1 = false := by
    decide +kernel
  -- What the step returns is not evaluated again.
  generalize ({ run, oracle := script } : Session Script).step false = returned at *
  obtain ⟨session, left⟩ := returned
  obtain ⟨rfl, hgoing⟩ : left = none ∧ session.run.isRunning = true := hfirst
  have aborted := ((hstep.tail (.enter rfl hgoing)).tail (.begin rfl)).tail
    (.abort (.text "worker failed"))
  obtain ⟨calls', hfly⟩ :=
    reach_fly false 0 (session.launch.abort (.text "worker failed")) (calls + 1)
  have hreach := aborted.trans hfly
  generalize (session.launch.abort (.text "worker failed")).fly false 0 = dropped at hsecond hreach
  obtain ⟨hcause, hfinal, hsurveyed, hflag, hfree⟩ := hsecond
  obtain ⟨-, ⟨m, hm, hmirrors⟩, hcount, -⟩ := statistics_accounted 5 2 none script run hrun _ hreach
  have hsame : m.session.run = dropped.1.run := hmirrors.session.run_eq
  refine ⟨run, _, m, hrun, hreach, hcause, hfinal, hmirrors, ?_, ?_⟩
  · rw [hcount m hm, hsame, hflag, hsurveyed]
    rfl
  · rw [hcount m hm, hsame, hfree, hsurveyed]
    rfl

end Control

end Cosim

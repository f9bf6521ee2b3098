import Cosim.Proofs.Loading
import Cosim.Proofs.Supervision

/-!
# Supervised runs end with the verdict

However the workers, the loop and the caller take turns, a supervised run comes to
its end, and its account is the verdict on the blocks of the stream.

* `Inv.effort_lt` says that every step leaves less to do, so every run ends.
* `Inv.done_of_stuck` says that it ends with the account that the caller draws up:
  nobody waits for ever.
* `Supervisor.prepare_running` says that a configuration within the limits starts with
  the whole verdict before it.
-/

namespace Cosim

/-- How far the loop is from its next wait; from its end, once the run has ended. -/
def Loop.rank (running : Bool) : Loop → Nat
  | .gone => 0
  | .finishing => 1
  | .head => 2 + 7 * running.toNat
  | .batch 0 => 3 + 7 * running.toNat
  | .batch (_ + 1) => 3 + 5 * running.toNat
  | .judging (.error _) _ => 5
  | .taking _ => 6
  | .entering _ => 7
  | .judging (.ok _) _ => 11
  | .checking _ _ => 12
  | .returning _ _ _ => 13
  | .draining _ _ _ => 14
  | .copying _ _ => 15

/-- How far the caller is from its end. -/
def Caller.rank : Caller → Nat
  | .done _ => 0
  | .stopping _ todo => 1 + todo.length
  | .joining _ => 6
  | .woken _ => 7
  | .waiting => 8

namespace Supervision

variable {job : Job} {batch : Nat} {s s' : Supervision} {d : Device} {h : Handover} {k : Nat}
  {marks : Verdict.Marks} {last : List CoreState} {loop : Loop}

/-! ## Every run ends -/

/-- What the hardware and the workers have left to do.  A snapshot in the full place
is less than the step that put it there, and more than what the loop does with
it. -/
def supply (s : Supervision) : Nat :=
  18 * (s.device.work + 2 * s.pending.length) + s.pending.length +
    (s.device.source.tail == .opened).toNat + 16 * s.device.exchange.full.toList.length +
    s.device.failures.length

/-- What is left to do for everybody. -/
def effort (s : Supervision) : Nat :=
  s.supply + s.loop.rank s.session.run.isRunning + s.caller.rank

/-- A step of a worker is more than what it leaves to the others. -/
theorem effort_worker (hk : s.device.Keeps d) (hwork : d.work < s.device.work)
    (hfailures : d.failures.length ≤ s.device.failures.length + 1) :
    (s.withDevice d).effort < s.effort := by
  have hone : d.exchange.full.toList.length ≤ 1 := by cases d.exchange.full <;> simp
  have hsupply : (s.withDevice d).supply < s.supply := by
    show 18 * (d.work + 2 * s.pending.length) + s.pending.length +
      (d.source.tail == .opened).toNat + 16 * d.exchange.full.toList.length + d.failures.length <
        s.supply
    simp only [supply, hk.tail_eq]
    omega
  show (s.withDevice d).supply + s.loop.rank s.session.run.isRunning + s.caller.rank < s.effort
  simp only [effort]
  omega

theorem effort_reader (hs : s.Serves job h) (hnext : d ∈ s.device.readerNext) :
    (s.withDevice d).effort < s.effort :=
  effort_worker (hs.sound.readerNext hnext).2 (hs.sound.work_readerNext hnext)
    (Device.readerNext_frame hnext).2

theorem effort_assembler (hs : s.Serves job h) (hnext : d ∈ s.device.assemblerNext) :
    (s.withDevice d).effort < s.effort := by
  obtain ⟨-, -, -, -, -, hk⟩ := hs.sound.assemblerNext hnext
  exact effort_worker hk (Device.work_assemblerNext hnext) (Device.assemblerNext_frame hnext)

/-- A byte counts less once it is delivered. -/
theorem effort_feed {piece rest : List UInt8} (hpending : s.pending = piece ++ rest)
    (hpiece : piece ≠ []) :
    { s.withDevice { s.device with source := s.device.source.feed piece } with
      pending := rest }.effort < s.effort := by
  have hpos := List.length_pos_iff.mpr hpiece
  have hlen := congrArg List.length hpending
  rw [List.length_append] at hlen
  simp only [effort, supply, device, withDevice, Device.work, Source.feed, List.length_append]
  omega

theorem effort_feedOver (htail : s.device.source.tail = .opened) :
    (s.withDevice { s.device with source := s.device.source.finish .finished }).effort <
      s.effort := by
  have hopen : s.session.oracle.device.source.tail = .opened := htail
  simp [effort, supply, device, withDevice, Device.work, Source.finish, hopen]

/-- The loop may have more to do by as much as it takes off the workers. -/
theorem effort_spend {n : Nat} (hsupply : s'.supply + n = s.supply) (hcaller : s'.caller = s.caller)
    (hrank : s'.loop.rank s'.session.run.isRunning < s.loop.rank s.session.run.isRunning + n) :
    s'.effort < s.effort := by
  simp only [effort, hcaller]
  omega

/-- A step of the loop that takes no snapshot. -/
theorem effort_loop (hsupply : s'.supply = s.supply) (hcaller : s'.caller = s.caller)
    (hrank : s'.loop.rank s'.session.run.isRunning < s.loop.rank s.session.run.isRunning) :
    s'.effort < s.effort :=
  effort_spend (n := 0) hsupply hcaller hrank

/-- A step of the caller. -/
theorem effort_caller (hsupply : s'.supply = s.supply) (hsession : s'.session.run = s.session.run)
    (hloop : s'.loop = s.loop) (hrank : s'.caller.rank < s.caller.rank) : s'.effort < s.effort := by
  simp only [effort, hsupply, hsession, hloop]
  omega

/-- The session says nothing about what the workers have to do. -/
theorem supply_of_device (hdevice : s'.device = s.device) (hpending : s'.pending = s.pending) :
    s'.supply = s.supply := by
  simp only [supply, hdevice, hpending]

theorem Running.effort_lt (hr : s.Running job h k marks last) (hbatch : 0 < batch)
    (hs : s.Serves job h) (hmove : Move batch s s') : s'.effort < s.effort := by
  have hrun := hr.run_at.isRunning
  cases hmove with
  | feed hpending hpiece => exact effort_feed hpending hpiece
  | feedOver _ htail => exact effort_feedOver htail
  | reader hnext => exact effort_reader hs hnext
  | assembler hnext => exact effort_assembler hs hnext
  | report hfailures => simp [hs.no_failure hr.calm] at hfailures
  | again hloop _ =>
    obtain ⟨n, rfl⟩ := Nat.exists_eq_add_of_lt hbatch
    refine effort_loop rfl rfl ?_
    simp [hloop, Loop.rank, hrun]
  | leave _ hgoes => simp [hr.goesOn] at hgoes
  | enter hloop _ =>
    refine effort_loop rfl rfl ?_
    simp [hloop, Loop.rank, hrun]
  | @batchOver left hloop hover =>
    obtain rfl : left = 0 := by simpa [hr.goesOn] using hover
    refine effort_loop rfl rfl ?_
    simp [hloop, Loop.rank]
  | begin hloop _ =>
    refine effort_loop rfl rfl ?_
    simp [hloop, Loop.rank]
  | late _ hover => simp [hrun] at hover
  | @take left t x hloop htake =>
    -- The loop has more to do, but the full place is empty now.
    rw [← hs.sound.exchange_eq] at htake
    obtain ⟨-, hfull, rfl, -⟩ := hs.sound.inv.owned.take_ok htake
    rw [hs.sound.exchange_eq] at hfull ⊢
    have hsupply : (s.withExchange { s.device.exchange with full := none }
        (.copying t left)).supply + 16 = s.supply := by
      simp only [supply, hfull, Option.toList_some, List.length_singleton]
      rw [Nat.mul_one, Nat.add_right_comm]
      rfl
    refine effort_spend hsupply rfl ?_
    simp [withExchange, hloop, Loop.rank]
  | takeFailed hloop htake =>
    rw [← hs.sound.exchange_eq] at htake
    obtain ⟨-, rfl, -, -⟩ := hs.sound.inv.take_error htake
    rw [hs.sound.exchange_eq]
    refine effort_loop rfl rfl ?_
    simp [withExchange, hloop, Loop.rank]
  | giveUp _ hcancelled =>
    simp [hr.caller_eq, Caller.cancelled, hr.run_at.halted_eq] at hcancelled
  | copy hloop =>
    refine effort_loop rfl rfl ?_
    simp [hloop, Loop.rank]
  | reset hloop =>
    refine effort_loop rfl rfl ?_
    simp [withExchange, hloop, Loop.rank]
  | giveBack hloop hback =>
    have htaker := hr.taker_eq
    rw [hloop] at htaker
    rw [hs.sound.giveBack_eq htaker, Exchange.Delivery.done.injEq] at hback
    subst hback
    refine effort_loop rfl rfl ?_
    simp [withExchange, hloop, Loop.rank]
  | check hloop =>
    refine effort_loop rfl rfl ?_
    simp [Supervision.accept, hloop, Loop.rank]
  | @conclude left result hloop =>
    cases result with
    | error e =>
      obtain ⟨horacle, hended⟩ := hr.conclude_error hloop
      refine effort_loop (supply_of_device (congrArg Line.device horacle) rfl) rfl ?_
      rw [hended.run_ended.isRunning_eq]
      cases left <;> simp [Supervision.conclude, hloop, Loop.rank]
    | ok differs =>
      obtain ⟨horacle, -⟩ := hr.conclude_answer hloop
      refine effort_loop (supply_of_device (congrArg Line.device horacle) rfl) rfl ?_
      generalize (s.conclude (.ok differs) left).session.run.isRunning = running
      cases left <;> cases running <;> simp [Supervision.conclude, hloop, Loop.rank]
  | finish hloop =>
    have hstays := hr.stays
    simp [hloop, Loop.hasLeft] at hstays
  | wake _ hwait => simp [Run.waitOutcomes, hr.run_at.halted_eq] at hwait
  | cancel hcaller | join hcaller _ | halt hcaller | collect hcaller _ _ _ =>
    simp [hr.caller_eq] at hcaller

theorem Ended.effort_lt (he : s.Ended job) (hs : s.Serves job h) (hmove : Move batch s s') :
    s'.effort < s.effort := by
  have hrests := he.rests
  have hover := he.run_ended.isRunning_eq
  cases hmove with
  | feed hpending hpiece => exact effort_feed hpending hpiece
  | feedOver _ htail => exact effort_feedOver htail
  | reader hnext => exact effort_reader hs hnext
  | assembler hnext => exact effort_assembler hs hnext
  | @report before e later hfailures =>
    have he' : (s.withDevice { s.device with failures := before ++ later }).Ended job :=
      he.withDevice rfl rfl
    obtain ⟨-, -, habort⟩ := session_frozen he'.run_ended
    rw [habort e]
    have hsupply :
        (s.withDevice { s.device with failures := before ++ later }).supply + 1 = s.supply := by
      have hlength : s.device.failures.length = (before ++ later).length + 1 := by
        simp [hfailures, Nat.add_assoc]
      simp only [supply, hlength]
      rfl
    exact effort_spend hsupply rfl (Nat.lt_succ_self _)
  | again _ hgoes | enter _ hgoes => simp [he.goesOn] at hgoes
  | leave hloop _ =>
    refine effort_loop rfl rfl ?_
    simp [hloop, Loop.rank, hover]
  | @batchOver left hloop _ =>
    refine effort_loop rfl rfl ?_
    cases left <;> simp [hloop, Loop.rank, hover]
  | begin hloop _ | late hloop _ | take hloop _ | takeFailed hloop _ | giveUp hloop _ | copy hloop
  | reset hloop | giveBack hloop _ | check hloop | conclude hloop =>
    simp [hloop, Loop.atRest] at hrests
  | finish hloop =>
    rw [(session_frozen he.run_ended).2.1]
    refine effort_loop rfl rfl ?_
    simp [hloop, Loop.rank]
  | wake hcaller _ => exact effort_caller rfl rfl rfl (by simp [hcaller, Caller.rank])
  | cancel hcaller => exact effort_caller rfl rfl rfl (by simp [hcaller, Caller.rank])
  | join hcaller _ => exact effort_caller rfl rfl rfl (by simp [hcaller, Caller.rank])
  | @halt outcome step todo hcaller =>
    have hsupply : (s.withDevice (s.device.halt step)).supply = s.supply := by cases step <;> rfl
    exact effort_caller hsupply rfl rfl (by simp [hcaller, Caller.rank])
  | collect hcaller _ _ _ => exact effort_caller rfl rfl rfl (by simp [hcaller, Caller.rank])

theorem Inv.effort_lt (inv : s.Inv job) (hbatch : 0 < batch) (hmove : Move batch s s') :
    s'.effort < s.effort := by
  obtain ⟨h, hs, ⟨k, marks, last, hr⟩ | he⟩ := inv
  · exact hr.effort_lt hbatch hs hmove
  · exact he.effort_lt hs hmove

/-! ## Nobody waits for ever -/

/-- A loop that waits for a snapshot gets an answer, at the latest when the hardware
has delivered everything and the workers cannot move. -/
theorem Running.take_answers (hr : s.Running job h k marks last) (hs : s.Serves job h) {left : Nat}
    (hloop : s.loop = .taking left) (htail : s.device.source.tail ≠ .opened)
    (hreader : s.device.readerNext = []) (hassembler : s.device.assemblerNext = []) :
    ∃ result x, s.device.exchange.take = some (result, x) := by
  have hidle : h.taker = .idle := by rw [hr.taker_eq, hloop]; rfl
  exact hs.sound.take_answers hreader hassembler htail hidle

theorem readerNext_of_stuck (hstuck : s.Stuck batch) : s.device.readerNext = [] :=
  List.eq_nil_iff_forall_not_mem.mpr fun _ hnext => hstuck _ (.reader hnext)

theorem assemblerNext_of_stuck (hstuck : s.Stuck batch) : s.device.assemblerNext = [] :=
  List.eq_nil_iff_forall_not_mem.mpr fun _ hnext => hstuck _ (.assembler hnext)

theorem tail_of_stuck (hstuck : s.Stuck batch) : s.device.source.tail ≠ .opened := by
  intro hopen
  by_cases hpending : s.pending = []
  · exact hstuck _ (.feedOver hpending hopen)
  · exact hstuck _ (.feed (List.append_nil _).symm hpending)

/-- Before the end of the run somebody can move. -/
theorem Running.not_stuck (hr : s.Running job h k marks last) (hs : s.Serves job h) :
    ¬ s.Stuck batch := by
  intro hstuck
  have hstays := hr.stays
  cases hloop : s.loop with
  | head => exact hstuck _ (.again hloop hr.goesOn)
  | batch left =>
    cases left with
    | zero => exact hstuck _ (.batchOver hloop (.inl rfl))
    | succ left => exact hstuck _ (.enter hloop hr.goesOn)
  | entering left => exact hstuck _ (.begin hloop hr.run_at.isRunning)
  | taking left =>
    obtain ⟨result, x, htake⟩ := hr.take_answers hs hloop (tail_of_stuck hstuck)
      (readerNext_of_stuck hstuck) (assemblerNext_of_stuck hstuck)
    cases result with
    | ok t => exact hstuck _ (.take hloop htake)
    | error e => exact hstuck _ (.takeFailed hloop htake)
  | copying t left => exact hstuck _ (.copy hloop)
  | draining t copy left => exact hstuck _ (.reset hloop)
  | returning t copy left =>
    have htaker := hr.taker_eq
    rw [hloop] at htaker
    exact hstuck _ (.giveBack hloop (hs.sound.giveBack_eq htaker))
  | checking copy left => exact hstuck _ (.check hloop)
  | judging result left => exact hstuck _ (.conclude hloop)
  | finishing | gone => simp [hloop, Loop.hasLeft] at hstays

/-- After the end of the run somebody can move until the caller has its account. -/
theorem Ended.done_of_stuck (he : s.Ended job) (hs : s.Serves job h) (hstuck : s.Stuck batch) :
    ∃ result, s.caller = .done result ∧ job.verdict.Describes result := by
  have hc := he.caller_knows
  cases hcaller : s.caller with
  | waiting =>
    have hwait : (s.session.run.outcome, none) ∈ s.session.run.waitOutcomes false := by
      simp [Run.waitOutcomes, he.run_ended.halted_eq]
    exact absurd (.wake hcaller hwait) (hstuck _)
  | woken outcome => exact absurd (.cancel hcaller) (hstuck _)
  | joining outcome =>
    have hrests := he.rests
    cases hloop : s.loop with
    | head => exact absurd (.leave hloop he.goesOn) (hstuck _)
    | batch left => exact absurd (.batchOver hloop (.inr he.goesOn)) (hstuck _)
    | finishing => exact absurd (.finish hloop) (hstuck _)
    | gone => exact absurd (.join hcaller hloop) (hstuck _)
    | _ => simp [hloop, Loop.atRest] at hrests
  | stopping outcome todo =>
    cases todo with
    | cons step todo => exact absurd (.halt hcaller) (hstuck _)
    | nil =>
      rw [hcaller] at hc
      obtain ⟨-, hcancelled, hclosed, -⟩ := hc
      have hreader := hs.sound.reader_released (readerNext_of_stuck hstuck) hcancelled
        (by simpa using hclosed)
      have hassembler := hs.sound.assembler_released (assemblerNext_of_stuck hstuck) hcancelled
      cases hfailures : s.device.failures with
      | nil => exact absurd (.collect hcaller hreader hassembler hfailures) (hstuck _)
      | cons e rest =>
        have hfirst : s.device.failures = [] ++ e :: rest := hfailures
        exact absurd (.report hfirst) (hstuck _)
  | done result =>
    rw [hcaller] at hc
    exact ⟨result, rfl, hc⟩

theorem Inv.done_of_stuck (inv : s.Inv job) (hstuck : s.Stuck batch) :
    ∃ result, s.caller = .done result ∧ job.verdict.Describes result := by
  obtain ⟨h, hs, ⟨k, marks, last, hr⟩ | he⟩ := inv
  · exact absurd hstuck (hr.not_stuck hs)
  · exact he.done_of_stuck hs hstuck

end Supervision

/-! ## The start -/

/-- A golden trace of which nothing has been compared yet. -/
structure Golden.Fresh (g : Golden) (cores : Nat) : Prop where
  held : g.released = false
  size_eq : g.lanes.size = cores
  next_eq : ∀ core, (g.lanes.getD core {}).next = 0

/-- The golden records of each core; without a trace there are none. -/
def Golden.recordsOf (golden : Option Golden) (core : Nat) : List CoreState :=
  match golden with
  | none => []
  | some g => (g.lanes.getD core {}).records.toList

theorem Golden.Fresh.load {cores : Int} {g : Golden} {bytes : List UInt8}
    (hload : Golden.load cores bytes = .ok (.ok g)) : g.Fresh cores.toNat := by
  have hloaded := Golden.loaded_of_load hload
  refine ⟨hloaded.held, hloaded.size_eq, fun core => ?_⟩
  rcases Nat.lt_or_ge core cores.toNat with hcore | hcore
  · rw [hloaded.lane_getD hcore]
  · rw [hloaded.lane_of_ge hcore]

namespace Supervisor

/-- A golden trace that is opened has just been loaded. -/
theorem fresh_of_openReference {files : Files} {path : String} {cores : Int} {g : Golden}
    {notes : Journal} (hopen : openReference files path cores = .ok (.ok (g, notes))) :
    g.Fresh cores.toNat := by
  unfold openReference at hopen
  split at hopen
  · cases hopen
  · split at hopen
    · cases hopen
    · dsimp only at hopen
      split at hopen
      · cases hempty : Golden.empty cores <;>
          simp [hempty, bind, Except.bind, pure, Except.pure] at hopen
      · rename_i bytes _
        cases hload : Golden.load cores bytes with
        | error fault => simp [hload, bind, Except.bind] at hopen
        | ok answer =>
          cases answer with
          | error e => simp [hload, bind, Except.bind, pure, Except.pure] at hopen
          | ok loaded =>
            simp only [hload, bind, Except.bind, pure, Except.pure, Except.ok.injEq,
              Prod.mk.injEq] at hopen
            exact hopen.1 ▸ Golden.Fresh.load hload

theorem fresh_of_referenceOf {files : Files} {config : Config} {known : Bool} {g : Golden}
    (hgolden : referenceOf files config known = .ok (.ok (some g))) :
    g.Fresh config.cores.toNat := by
  unfold referenceOf at hgolden
  split at hgolden
  · cases hgolden
  · cases hopen : openReference files config.diff config.cores with
    | error fault => simp [hopen, bind, Except.bind] at hgolden
    | ok answer =>
      cases answer with
      | error e => simp [hopen, bind, Except.bind, pure, Except.pure] at hgolden
      | ok loaded =>
        simp only [hopen, bind, Except.bind, pure, Except.pure, Except.ok.injEq,
          Option.some.injEq] at hgolden
        exact hgolden ▸ fresh_of_openReference hopen

end Supervisor

/-- There is always room for something small for each core. -/
theorem Fault.checkAllocation_cores {cores : Int} (hlow : 1 ≤ cores) (hhigh : cores ≤ maxCores)
    {width : Nat} (hwidth : width ≤ 1024) : Fault.checkAllocation cores width = .ok () := by
  have hproduct : cores * width ≤ maxCores * 1024 :=
    Int.mul_le_mul hhigh (by omega) (by omega) (by decide)
  have hmemory : maxCores * 1024 ≤ Fault.addressable := by decide
  exact checkAllocation_of_fits (by omega) (by omega)

/-- A new checker has no states yet and has compared nothing. -/
theorem Checker.create_at {cores : Int} (hlow : 1 ≤ cores) (hhigh : cores ≤ maxCores)
    {golden : Option Golden} (hgolden : ∀ g, golden = some g → g.Fresh cores.toNat) :
    ∃ c, Checker.create cores golden = .ok c ∧
      c.At (Golden.recordsOf golden) 0 (List.replicate cores.toNat {}) := by
  have hroom := Fault.checkAllocation_cores hlow hhigh (show stateWidth ≤ 1024 by decide)
  refine ⟨{ golden, cores := Array.replicate cores.toNat {}
            commits := Array.replicate cores.toNat 0 }, ?_, ?_⟩
  · simp only [Checker.create, if_neg (show ¬ cores < 1 by omega), hroom, bind, Except.bind]
    rfl
  · refine ⟨by simp, rfl, ?_, ?_⟩
    · rintro rfl core
      rfl
    · rintro g rfl
      have hg := hgolden g rfl
      refine ⟨hg.held, by simpa using hg.size_eq, fun core _ => ⟨rfl, ?_⟩⟩
      rw [hg.next_eq core, Nat.zero_min]

/-- A new run has taken no step and marked no core. -/
theorem Run.create_at {cores : Int} (hlow : 1 ≤ cores) (hhigh : cores ≤ maxCores) (limit : UInt64)
    (trace : Option Trace) :
    ∃ run, Run.create limit cores trace = .ok run ∧
      run.At limit 0 (List.replicate cores.toNat none) := by
  have hfigures := Fault.checkAllocation_cores hlow hhigh (show Watchdog.cpiWidth ≤ 1024 by decide)
  have hevents := Fault.checkAllocation_cores hlow hhigh (show eventWidth ≤ 1024 by decide)
  have hwatchdog : Watchdog.create limit cores = .ok
      { limit, info := { trapped := Array.replicate cores.toNat false
                         cpi := Array.replicate cores.toNat 0 } } := by
    simp only [Watchdog.create, if_neg (show ¬ cores < 1 by omega), hfigures, bind, Except.bind]
    rfl
  refine ⟨_, by simp only [Run.create, hwatchdog, hevents, bind, Except.bind]; rfl, rfl, ?_, ?_,
    rfl, rfl⟩
  · simp [Verdict.infoOf, List.countP_replicate]
  · simp [Verdict.eventsOf]

namespace Supervisor

theorem openDevice_open {files : Files} {path : String} {source : Source} {notes : Journal}
    (hopen : openDevice files path = .ok (source, notes)) : source.isClosed = false := by
  unfold openDevice at hopen
  split at hopen
  · cases hopen
  · rename_i entry _
    cases entry <;> simp only [streamOf, Except.ok.injEq, Prod.mk.injEq, reduceCtorEq] at hopen
    all_goals
      obtain ⟨rfl, -⟩ := hopen
      rfl

/-- A regular file is a stream that ends. -/
theorem openDevice_regular {files : Files} {path : String} {bytes : List UInt8}
    (hfind : files.find path = .ok (.regular bytes)) :
    ∃ notes, openDevice files path =
      .ok ({ queue := bytes, tail := .ended .finished }, notes) := by
  simp only [openDevice, Files.openPath, hfind, streamOf]
  exact ⟨_, rfl⟩

/-- Every configuration within the limits makes a pipeline that has the verdict on
its whole stream before it. -/
theorem prepare_running {files : Files} {config : Config} {known : Bool} {source : Source}
    {notes : Journal} {pending : List UInt8} {golden : Option Golden} (hlow : 1 ≤ config.cores)
    (hhigh : config.cores ≤ maxCores) (hdepth : 1 ≤ config.poolDepth)
    (hroom : Pool.checkRoom config.poolDepth chunkSize = .ok ())
    (hopen : openDevice files config.image = .ok (source, notes))
    (htail : source.tail = .opened ∨ source.tail = .ended .finished ∧ pending = [])
    (hgolden : referenceOf files config known = .ok (.ok golden))
    (hw : Stream.WellFormed config.cores.toNat (source.queue ++ pending)) :
    ∃ p h, prepare files config known = .ok (.ok p) ∧ p.flight = none ∧ p.device.source = source ∧
      (Supervision.start p pending).Serves ⟨_, Golden.recordsOf golden, config.maxInstrs, _, hw⟩ h ∧
      (Supervision.start p pending).Running ⟨_, Golden.recordsOf golden, config.maxInstrs, _, hw⟩
        h 0 (List.replicate config.cores.toNat none) (List.replicate config.cores.toNat {}) := by
  obtain ⟨d, hdevice, hsource, hcalm, hsound⟩ := Device.create_sound source pending hlow hhigh
    hdepth hroom (openDevice_open hopen) htail
  have hfresh : ∀ g, golden = some g → g.Fresh config.cores.toNat := by
    rintro g rfl
    exact fresh_of_referenceOf hgolden
  obtain ⟨c, hchecker, hc⟩ := Checker.create_at hlow hhigh hfresh
  obtain ⟨run, hrun, hr⟩ :=
    Run.create_at hlow hhigh config.maxInstrs (Trace.create config.traceLevel)
  have hpipeline : Pipeline.create source config.cores config.poolDepth golden config.maxInstrs
      config.traceLevel = .ok { session := { run, oracle := { device := d, checker := c } } } := by
    simp only [Pipeline.create, hdevice, hchecker, hrun, bind, Except.bind]
    rfl
  refine ⟨{ session := { run, oracle := { device := d, checker := c } } },
    { exchange := d.exchange }, ?_, rfl, hsource, ⟨hsound, ?_⟩, ?_⟩
  · simp only [prepare, hopen, hgolden, hpipeline, bind, Except.bind]
    rfl
  · show d.start.started = true
    unfold Device.start
    split
    · assumption
    · rfl
  · exact
      { caller_eq := rfl
        calm := hcalm
        run_at := hr
        marks_length := List.length_replicate
        last_length := List.length_replicate
        verdict_eq := rfl
        taker_eq := rfl
        taken_length := rfl
        copied_eq := by simp [Supervision.start, Loop.copied]
        checker_at := fun _ => hc
        answered := by simp [Supervision.start]
        failed := by simp [Supervision.start]
        stays := rfl }

end Supervisor

end Cosim

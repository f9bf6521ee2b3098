import Cosim.Proofs.Conclusion
import Cosim.Proofs.Statistics

/-!
# What the rows of a report say

A report has one row for each core.  The program counter and the counters in it are those of
the core's last event, from which the metrics take their cycles per instruction.  The cycles
per instruction in the row of a core that crossed the ceiling are those of the crossing.  The
two agree unless a core crossed the ceiling and the run then ended otherwise.

* `Report.build_eq` says what the rows are, and that drawing them up does not fail.
* `CoreReport.Agrees` compares a row with the last event, the metrics and the crossing.
* `RunResult.rows_agree` derives it from `Run.Filed`, for the account of any run.
* `Interruptible.Drawn` follows the account through every order of moves, and
  `Supervisor.leads_complete` does for the order of `run`.
-/

namespace Cosim

/-! ## Rows -/

namespace Report

/-- The row of a core. -/
def row (info : EndInfo) (core : Nat) (event : TrapEvent) : CoreReport where
  core := core
  limitReached := info.trapped.getD core false
  pc := event.pc
  instrs := event.instrs
  cycles := event.cycles
  cpi := if info.trapped.getD core false then info.cpi.getD core 0 else event.cpi

theorem row_cpi_of_flagged {info : EndInfo} {core : Nat} {event : TrapEvent} {cpi : Float}
    (hflag : info.trapped.getD core false = true) (hcpi : info.cpi[core]? = some cpi) :
    (row info core event).cpi = cpi := by
  simp only [row, if_pos hflag]
  rw [Array.getD_eq_getD_getElem?, hcpi]
  rfl

theorem row_cpi_of_free {info : EndInfo} {core : Nat} {event : TrapEvent}
    (hfree : info.trapped.getD core false = false) : (row info core event).cpi = event.cpi := by
  rw [row, if_neg (by simp [hfree])]

theorem coreRow_eq {info : EndInfo} {core : Nat} (hcore : core < info.cpi.size)
    (event : TrapEvent) : coreRow info core event = .ok (row info core event) := by
  unfold coreRow row
  cases info.trapped.getD core false with
  | false => rfl
  | true =>
    simp only [if_true, Fault.checkIndex_of_lt hcore]
    rfl

theorem mapM_coreRow {info : EndInfo} {final : List TrapEvent} {first : Nat}
    (hsize : first + final.length ≤ info.cpi.size) :
    (final.zipIdx first).mapM (fun (event, core) => coreRow info core event) =
      .ok ((final.zipIdx first).map fun (event, core) => row info core event) := by
  induction final generalizing first with
  | nil => rfl
  | cons event final ih =>
    rw [List.length_cons] at hsize
    rw [List.zipIdx_cons, List.mapM_cons, ih (by omega)]
    dsimp only
    rw [coreRow_eq (by omega)]
    rfl

/-- A report is drawn up without fault when the flags cover every core. -/
theorem build_eq (outcome : Outcome) (metrics : Metrics) {info : EndInfo}
    {final : List TrapEvent} (trace : Option Trace) (hsize : final.length ≤ info.cpi.size) :
    build outcome metrics info final trace = .ok
      { outcome, records := metrics.records, snapshots := metrics.snapshots
        cores := final.zipIdx.map fun (event, core) => row info core event
        trace := trace.map Trace.summarize } := by
  rw [build, mapM_coreRow (by omega)]
  rfl

end Report

/-- A row agrees with the account of its run: with the last event of the core, with the
metrics, and with the event at which the core crossed the ceiling. -/
structure CoreReport.Agrees (limit : UInt64) (crossing : TrapEvent → Prop) (result : RunResult)
    (core : Nat) (row : CoreReport) : Prop where
  core_eq : row.core = core
  limitReached_eq : row.limitReached = result.info.trapped.getD core false
  /-- Program counter and counters are those of the last event, and so are the cycles per
  instruction in the metrics.  Those of the row are too, unless the core crossed the ceiling
  and the run ended otherwise. -/
  final : ∃ event, result.final[core]? = some event ∧ row.pc = event.pc ∧
    row.instrs = event.instrs ∧ row.cycles = event.cycles ∧
    result.metrics.coreCpi[core]? = some event.cpi ∧
    (row.limitReached = false ∨ result.outcome.cause = some .instrLimit → row.cpi = event.cpi)
  /-- The row of a core that crossed the ceiling has the cycles per instruction of the
  crossing. -/
  crossed : row.limitReached = true → ∃ event, crossing event
  crossing : ∀ event, crossing event →
    row.limitReached = true ∧ limit < event.instrs ∧ row.cpi = event.cpi

/-- The report on a run can be drawn up, and has a row for each core that agrees with its
account. -/
def RunResult.RowsAgree (limit : UInt64) (cores : Nat) (crossing : Nat → TrapEvent → Prop)
    (result : RunResult) : Prop :=
  ∃ report, result.report = .ok report ∧ report.cores.length = cores ∧
    ∀ core < cores, ∃ row, report.cores[core]? = some row ∧
      row.Agrees limit (crossing core) result core

/-- The account is one of this run. -/
structure RunResult.Accounts (result : RunResult) (r : Run) : Prop where
  outcome_eq : result.outcome = r.outcome
  info_eq : result.info = r.watchdog.info
  final_eq : result.final = r.final.toList
  metrics_eq : result.metrics.final = r.final.toList

namespace RunResult

variable {result : RunResult} {r : Run} {limit : UInt64} {cores : Nat} {found : List Crossing}
  {crossing : Nat → TrapEvent → Prop}

theorem accounts_account (p : Pipeline) : (Supervisor.account p).Accounts p.session.run :=
  ⟨rfl, rfl, rfl, rfl⟩

/-- A run that the ceiling has ended keeps each core as it was when it crossed the ceiling. -/
theorem cpi_of_limited (hfiled : r.Filed limit cores found)
    (hcause : r.outcome.cause = some .instrLimit) {core : Nat} {event : TrapEvent}
    (hflag : r.watchdog.isTrapped core = true) (hevent : r.final[core]? = some event) :
    r.watchdog.info.cpi[core]? = some event.cpi := by
  obtain ⟨c, hc, rfl⟩ := List.mem_map.mp ((hfiled.flags.flagged core).mp hflag)
  have hnot : r.surveyed = false := by simp [Run.surveyed, hcause]
  obtain rfl : c.trip.event = event :=
    Option.some.inj ((hfiled.kept hnot c hc).symm.trans hevent)
  rw [← (hfiled.crossed c hc).1]
  exact hfiled.flags.cpi_eq c hc

/-- The rows agree when the crossings are those that the flags are about. -/
theorem rows_agree (h : result.Accounts r) (hfiled : r.Filed limit cores found)
    (hcrossed : ∀ core, r.watchdog.isTrapped core = true → ∃ event, crossing core event)
    (hcrossing : ∀ core event, crossing core event → limit < event.instrs ∧
      r.watchdog.isTrapped core = true ∧ r.watchdog.info.cpi[core]? = some event.cpi) :
    result.RowsAgree limit cores crossing := by
  obtain ⟨outcome, metrics, info, final, trace⟩ := result
  obtain ⟨rfl, rfl, rfl, hmetrics⟩ := h
  dsimp only at hmetrics
  have hsize : r.watchdog.info.cpi.size = cores := by
    rw [hfiled.flags.cpi_size, hfiled.watched_eq]
  have hcores : r.final.toList.length = cores := by
    rw [Array.length_toList]
    exact hfiled.cores_eq
  have hcover : r.final.toList.length ≤ r.watchdog.info.cpi.size := by omega
  refine ⟨_, Report.build_eq _ _ _ hcover, by simpa using hcores, fun core hcore => ?_⟩
  obtain ⟨event, hevent⟩ : ∃ event, r.final.toList[core]? = some event :=
    ⟨_, List.getElem?_eq_getElem (by omega)⟩
  refine ⟨Report.row r.watchdog.info core event, by simp [hevent], rfl,
    rfl, ⟨event, hevent, rfl, rfl, rfl, ?_, fun hplain => ?_⟩, hcrossed core,
    fun event' hevent' => ?_⟩
  · rw [Metrics.coreCpi, hmetrics, List.getElem?_map, hevent]
    rfl
  · cases hflag : r.watchdog.isTrapped core with
    | false => exact Report.row_cpi_of_free hflag
    | true =>
      have hcause := hplain.resolve_left fun hfree => absurd (hflag.symm.trans hfree) (by simp)
      rw [Array.getElem?_toList] at hevent
      exact Report.row_cpi_of_flagged hflag (cpi_of_limited hfiled hcause hflag hevent)
  · obtain ⟨habove, hflag, hcpi⟩ := hcrossing core event' hevent'
    exact ⟨hflag, habove, Report.row_cpi_of_flagged hflag hcpi⟩

end RunResult

/-! ## Crossings on the way -/

/-- The event with which a core crosses the ceiling on the way from `start` to `last`, by steps
that have a session each. -/
def Crosses {α : Type} (R : α → α → Prop) (session : α → Session Line) (start last : α)
    (core : Nat) (event : TrapEvent) : Prop :=
  ∃ before after, Passes R start before after last ∧
    (session before).run.watchdog.isTrapped core = false ∧
    (session after).run.watchdog.isTrapped core = true ∧
    event = Oracle.event (session before).oracle core

/-- The rows agree with the crossings on the way, when all steps are critical sections. -/
theorem RunResult.rows_of_way {α : Type} {R : α → α → Prop} {session : α → Session Line}
    {start last : α} {limit : UInt64} {cores : Nat} {found : List Crossing} {r : Run}
    {result : RunResult} (hsection : ∀ a b, R a b → (session a).Section (session b))
    (hfiled : (session start).run.Filed limit cores []) (hway : Relation.ReflTransGen R start last)
    (h : result.Accounts r) (hr : r.Filed limit cores found)
    (hinfo : r.watchdog.info = (session last).run.watchdog.info) :
    result.RowsAgree limit cores (Crosses R session start last) := by
  have hleads : ∀ {a b}, Relation.ReflTransGen R a b → (session a).Leads (session b) :=
    fun hway => hway.lift session hsection
  refine rows_agree h hr (fun core hflag => ?_) ?_
  · rw [Watchdog.isTrapped, hinfo] at hflag
    obtain ⟨before, after, hpasses, hfree, hflagged⟩ := exists_passes hway
      (f := fun a => (session a).run.watchdog.isTrapped core) (hfiled.free core) hflag
    exact ⟨_, before, after, hpasses, hfree, hflagged, rfl⟩
  · rintro core event ⟨before, after, ⟨hto, hstep, hfrom⟩, hfree, hflagged, rfl⟩
    obtain ⟨found', -, hbefore⟩ := (hleads hto).filed hfiled
    obtain ⟨habove, hflag, hcpi, -⟩ :=
      Session.crossing_kept hbefore (hsection _ _ hstep) (hleads hfrom) hfree hflagged
    rw [Watchdog.isTrapped, hinfo]
    exact ⟨habove, hflag, hcpi⟩

/-! ## Every order of moves -/

namespace Supervision

theorem Move.isSection {batch : Nat} {s s' : Supervision} (h : Move batch s s') :
    s.session.Section s'.session := by
  cases h with
  | @report before e later _ =>
    exact .abort (s := s.session)
      (t := (s.withDevice { s.device with failures := before ++ later }).session) rfl e
  | late _ hend => exact .dump hend
  | conclude => exact .conclude _ _
  | finish => exact .finish
  | feed | feedOver | reader | assembler | again | leave | enter | batchOver | begin | take
  | takeFailed | giveUp | copy | reset | giveBack | check | wake | cancel | join | halt
  | collect => exact .work rfl

/-- A supervised run over a well-formed stream can come to its account. -/
theorem Inv.exists_done {job : Job} {batch : Nat} {s : Supervision} (inv : s.Inv job)
    (hbatch : 0 < batch) : ∃ s' result, Reach batch s s' ∧ s'.caller = .done result := by
  induction heffort : s.effort using Nat.strong_induction_on generalizing s with
  | h n ih =>
    by_cases hstuck : s.Stuck batch
    · obtain ⟨result, hdone, -⟩ := inv.done_of_stuck hstuck
      exact ⟨s, result, .refl, hdone⟩
    · obtain ⟨t, hmove⟩ : ∃ t, s.Move batch t := by simpa [Stuck] using hstuck
      obtain ⟨s', result, hreach, hdone⟩ :=
        ih t.effort (heffort ▸ inv.effort_lt hbatch hmove) (inv.move hmove) rfl
      exact ⟨s', result, .head hmove hreach, hdone⟩

end Supervision

namespace Interruptible

variable {limit : UInt64} {cores batch : Nat} {s s' : Interruptible} {found : List Crossing}

theorem Move.isSection (h : s.Move batch s') :
    s.supervision.session.Section s'.supervision.session := by
  cases h with
  | own h => exact h.isSection
  | conclude => exact .conclude _ true
  | interrupt | leave | batchOver | giveUp | refuse => exact .work rfl

theorem leads_of_reach (h : Reach batch s s') :
    s.supervision.session.Leads s'.supervision.session :=
  h.lift (·.supervision.session) fun _ _ hmove => hmove.isSection

/-- What the caller hands out is the account of a run in order. -/
def Drawn (limit : UInt64) (cores : Nat) (s : Interruptible) : Prop :=
  s.refusal = none → ∀ result, s.supervision.caller = .done result →
    ∃ r found, r.Filed limit cores found ∧ result.Accounts r

theorem Drawn.move (h : s.Drawn limit cores) (inv : s.Inv limit cores)
    (hfiled : s.supervision.session.run.Filed limit cores found) (hmove : s.Move batch s') :
    s'.Drawn limit cores := by
  cases hmove with
  | own h' =>
    cases h' with
    | collect hcaller =>
      intro hnone result hdone
      have hinformed := inv.informed hnone
      rw [hcaller] at hinformed
      cases hdone
      exact ⟨s.supervision.session.run, found, hfiled, hinformed.2, rfl, rfl, rfl⟩
    | wake | cancel | join | halt =>
      intro _ result hdone
      cases hdone
    | feed | feedOver | reader | assembler | report | again | leave | enter | batchOver | begin
    | late | take | takeFailed | giveUp | copy | reset | giveBack | check | conclude | finish =>
      exact h
  | refuse =>
    intro hnone
    cases hnone
  | interrupt | leave | batchOver | giveUp | conclude => exact h

theorem Drawn.reach (inv : s.Inv limit cores)
    (hfiled : s.supervision.session.run.Filed limit cores found) (h : s.Drawn limit cores)
    (hreach : Reach batch s s') : s'.Drawn limit cores := by
  induction hreach with
  | refl => exact h
  | tail hreach hmove ih =>
    obtain ⟨found', -, hfiled'⟩ := (leads_of_reach hreach).filed hfiled
    exact ih.move (inv.reach hreach) hfiled' hmove

theorem returned_eq_ok {result : RunResult} (hreturned : s.returned = some (.ok result)) :
    s.supervision.caller = .done result ∧ s.refusal = none := by
  unfold returned at hreturned
  split at hreturned
  · rename_i account hcaller
    split at hreturned
    · cases hreturned
    · rename_i hnone
      cases hreturned
      exact ⟨hcaller, hnone⟩
  · cases hreturned

theorem rows_of_reach {start : Interruptible} {result : RunResult}
    (inv : start.Inv limit cores) (hfiled : start.supervision.session.run.Filed limit cores [])
    (hwaiting : start.supervision.caller = .waiting) (hreach : Reach batch start s)
    (hreturned : s.returned = some (.ok result)) :
    result.RowsAgree limit cores (Crosses (Move batch) (·.supervision.session) start s) := by
  obtain ⟨hdone, hnone⟩ := returned_eq_ok hreturned
  obtain ⟨r, found, hr, haccounts⟩ :=
    Drawn.reach inv hfiled (by simp [Drawn, hwaiting]) hreach hnone result hdone
  refine RunResult.rows_of_way (fun _ _ hmove => hmove.isSection) hfiled hreach haccounts hr ?_
  -- The run has ended when the account is drawn up, and its flags stay.
  have hinformed := (inv.reach hreach).informed hnone
  rw [hdone] at hinformed
  rw [← haccounts.info_eq]
  exact hinformed.2.2

end Interruptible

/-! ## The order of `run` -/

namespace Session

variable {σ : Type} [Oracle σ]

theorem Leads.after_work {s t u : Session σ} (h : t.Leads u) (hrun : t.run = s.run) : s.Leads u :=
  .head (.work hrun) h

theorem leads_fly (cancelled : Bool) (left : Nat) (s : Session σ) :
    s.Leads (s.fly cancelled left).1 := by
  induction left generalizing s with
  | zero =>
    unfold fly
    split
    · exact .refl
    · exact (Relation.ReflTransGen.single (.work rfl)).tail (.conclude _ cancelled)
  | succ left ih =>
    unfold fly
    split
    · exact .refl
    · rename_i answer _
      dsimp only
      have hanswered : s.Leads (({ s with oracle := answer.oracle }.log answer.notes).conclude
          answer.result cancelled) :=
        (Relation.ReflTransGen.single (.work rfl)).tail (.conclude _ cancelled)
      split
      · exact hanswered.trans ((ih _).after_work rfl)
      · exact hanswered

theorem leads_steps (n : Int) (cancelled : Bool) (s : Session σ) :
    s.Leads (s.steps n cancelled).1 := by
  unfold steps
  split
  · exact (leads_fly cancelled _ s.launch).after_work rfl
  · exact .refl

end Session

namespace Supervisor

theorem leads_settleDevice (p : Pipeline) : p.session.Leads p.settleDevice.session := by
  have haborts : ∀ (errors : List Error) (q : Pipeline),
      q.session.Leads (errors.foldl Stepper.abort q).session := by
    intro errors
    induction errors with
    | nil => exact fun q => .refl
    | cons e errors ih => exact fun q => .head (.abort rfl e) (ih (q.abort e))
  exact (haborts p.device.settle.failures
    (p.withDevice { p.device.settle with failures := [] })).after_work rfl

theorem leads_resume (p : Pipeline) : p.session.Leads p.resume.session := by
  unfold Stepper.resume
  split
  · exact .refl
  · exact Session.leads_fly ..

theorem leads_settle_go (fuel : Nat) (p : Pipeline) :
    p.session.Leads (Pipeline.settle.go fuel p).session := by
  induction fuel generalizing p with
  | zero => exact .refl
  | succ fuel ih =>
    have hresumed := (leads_settleDevice p).trans (leads_resume p.settleDevice)
    simp only [Pipeline.settle.go]
    split
    · exact hresumed.trans (ih _)
    · exact hresumed

theorem leads_drive (batch : Int) (fuel : Nat) (p : Pipeline) :
    p.session.Leads (drive batch fuel p).session := by
  induction fuel generalizing p with
  | zero => exact .refl
  | succ fuel ih =>
    unfold drive
    split
    · exact ((Session.leads_steps batch false p.session).trans
        (leads_settle_go _ (p.steps batch false))).trans (ih _)
    · exact .refl

/-- What `run` draws up the account of. -/
theorem leads_complete (p : Pipeline) (batch : Int) :
    ∃ last : Session Line, p.session.Leads last ∧ (complete p batch).Accounts last.run := by
  have hstarted : p.session.Leads (p.withDevice p.device.start).settle.session :=
    (leads_settle_go _ (p.withDevice p.device.start)).after_work rfl
  have hdriven := hstarted.trans (leads_drive batch (patience p) _)
  refine ⟨_, ?_, RunResult.accounts_account _⟩
  exact (hdriven.tail .finish).trans ((leads_settle_go _ _).after_work rfl)

/-! ## Rows and accounts -/

/-- The rows of every report agree with the account of their run, however hardware, workers,
loop, caller and an interruption from outside take turns, and in the order of `run`.  Where a
core crossed the ceiling and the run ended otherwise, the cycles per instruction in its row
are those of the crossing. -/
theorem report_rows_agree :
    (∀ (files : Files) (config : Config) (known : Bool) (p : Pipeline),
      prepare files config known = .ok (.ok p) →
      ∀ (pending : List UInt8) (s : Interruptible),
        Interruptible.Reach config.stepBatch.toNat
          { supervision := Supervision.start p pending } s →
        ∀ result, s.returned = some (.ok result) →
          result.RowsAgree config.maxInstrs config.cores.toNat
            (Crosses (Interruptible.Move config.stepBatch.toNat) (·.supervision.session)
              { supervision := Supervision.start p pending } s)) ∧
    ∀ (files : Files) (config : Config) (known cancelled : Bool) (result : RunResult),
      run files config known cancelled = .ok (.ok result) →
        ∃ p last, prepare files config known = .ok (.ok p) ∧ p.session.Leads last ∧
          result.Accounts last.run ∧
          result.RowsAgree config.maxInstrs config.cores.toNat
            (Crosses Session.Section id p.session last) := by
  refine ⟨?_, ?_⟩
  · intro files config known p hprepare pending s hreach result hreturned
    obtain ⟨source, notes, device, checker, run, -, -, hrun, rfl⟩ := prepare_parts hprepare
    exact Interruptible.rows_of_reach ⟨Run.regular_create hrun, fun _ => trivial⟩
      (Run.filed_create hrun).2 rfl hreach hreturned
  · intro files config known cancelled result hresult
    obtain ⟨p, hprepare, rfl⟩ := run_parts hresult
    obtain ⟨last, hleads, haccounts⟩ := leads_complete p config.stepBatch
    refine ⟨p, last, hprepare, hleads, haccounts, ?_⟩
    obtain ⟨source, notes, device, checker, run, -, -, hrun, rfl⟩ := prepare_parts hprepare
    have hfiled := (Run.filed_create hrun).2
    obtain ⟨found, -, hlast⟩ := hleads.filed hfiled
    exact RunResult.rows_of_way (fun _ _ hsection => hsection) hfiled hleads haccounts hlast rfl

/-- A stream of two cores and two steps, with a good trap in the second. -/
def twoSteps : List UInt8 :=
  CoreState.encodeChunk 1 { trap := { pc := 16, cycles := 5, instrs := 1 } } ++
  CoreState.encodeChunk 0 { trap := { pc := 32, cycles := 6, instrs := 2 } } ++
  CoreState.encodeChunk 1 { trap := { pc := 20, cycles := 9, instrs := 1 } } ++
  CoreState.encodeChunk 0 { trap := { hasTrap := true, pc := 36, cycles := 20, instrs := 4 } }

/-- Core 0 crosses the ceiling in the first step.  The run ends in the second, and both the
supervised run in any order and `run` come to an account whose rows agree. -/
theorem report_rows_agree_two_steps :
    let files : Files := { entries := [(["image"], .regular twoSteps)] }
    let config : Config :=
      { image := "image", noDiff := true, maxInstrs := 1, cores := 2, poolDepth := 3 }
    (∃ p s result, prepare files config true = .ok (.ok p) ∧
      Interruptible.Reach 1 { supervision := Supervision.start p [] } s ∧
      s.returned = some (.ok result) ∧
      result.RowsAgree 1 2 (Crosses (Interruptible.Move 1) (·.supervision.session)
        { supervision := Supervision.start p [] } s)) ∧
    ∃ result p last, run files config true false = .ok (.ok result) ∧
      result.RowsAgree 1 2 (Crosses Session.Section id p last) := by
  intro files config
  have hfind : files.find config.image = .ok (.regular twoSteps) := by decide +kernel
  obtain ⟨notes, hopen⟩ := openDevice_regular hfind
  obtain ⟨p, h, hprepare, -, -, hs, hr⟩ := @prepare_running files config true _ notes [] none
    (by decide) (by decide) (by decide) (by decide) hopen (.inr ⟨rfl, rfl⟩) rfl (by decide +kernel)
  have inv : (Supervision.start p []).Inv _ := ⟨h, hs, .inl ⟨0, _, _, hr⟩⟩
  refine ⟨?_, ?_⟩
  · obtain ⟨s, result, hreach, hdone⟩ := inv.exists_done Nat.one_pos
    have hreach' : Interruptible.Reach 1 { supervision := Supervision.start p [] }
        { supervision := s } :=
      hreach.lift (fun s => ({ supervision := s } : Interruptible)) fun _ _ hmove => .own hmove
    have hreturned : ({ supervision := s } : Interruptible).returned = some (.ok result) := by
      simp [Interruptible.returned, hdone]
    exact ⟨p, _, result, hprepare, hreach', hreturned,
      report_rows_agree.1 files config true p hprepare [] _ hreach' result hreturned⟩
  · have hrun : run files config true false = .ok (.ok (complete p config.stepBatch)) := by
      simp only [run, hprepare, bind, Except.bind]
      rfl
    obtain ⟨p', last, -, -, -, hrows⟩ := report_rows_agree.2 files config true false _ hrun
    exact ⟨_, p'.session, last, hrun, hrows⟩

/-- Core 0 crosses a ceiling of one instruction in the first step, at three cycles per
instruction, and the run ends in the second with a good trap.  By then the core is at five,
which is what its counters and the metrics say, but its row still says three. -/
theorem row_keeps_cpi_of_crossing :
    let files : Files := { entries := [(["image"], .regular twoSteps)] }
    let config : Config :=
      { image := "image", noDiff := true, maxInstrs := 1, cores := 2, poolDepth := 3 }
    ∃ result report row event, run files config true false = .ok (.ok result) ∧
      result.report = .ok report ∧ report.cores[0]? = some row ∧ result.final[0]? = some event ∧
      result.outcome.cause = some .goodTrap ∧ row.instrs = event.instrs ∧
      row.cycles = event.cycles ∧ row.cpi = 3 ∧ event.cpi = 5 ∧ row.cpi ≠ event.cpi ∧
      result.metrics.coreCpi[0]? = some event.cpi := by
  intro files config
  have hrun : ((run files config true false).toOption.bind Except.toOption).bind (fun result =>
      result.report.toOption.bind fun report => report.cores[0]?.bind fun row =>
        result.final[0]?.map fun event => decide (result.outcome.cause = some .goodTrap ∧
          row.instrs = event.instrs ∧ row.cycles = event.cycles ∧ row.cpi = 3 ∧ event.cpi = 5 ∧
          row.cpi ≠ event.cpi ∧ result.metrics.coreCpi[0]? = some event.cpi)) = some true := by
    decide +kernel
  obtain ⟨result, hresult, hreport⟩ := Option.bind_eq_some_iff.mp hrun
  obtain ⟨report, hreport, hrow⟩ := Option.bind_eq_some_iff.mp hreport
  obtain ⟨row, hrow, hevent⟩ := Option.bind_eq_some_iff.mp hrow
  obtain ⟨event, hevent, hfacts⟩ := Option.map_eq_some_iff.mp hevent
  obtain ⟨outer, houter, hinner⟩ := Option.bind_eq_some_iff.mp hresult
  refine ⟨result, report, row, event, ?_, eq_ok_of_toOption hreport, hrow, hevent,
    of_decide_eq_true hfacts⟩
  rw [eq_ok_of_toOption houter, eq_ok_of_toOption hinner]

end Supervisor

end Cosim

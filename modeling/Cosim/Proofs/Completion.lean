import Cosim.Proofs.Refinement
import Cosim.Proofs.Rounds

/-!
# A supervised run from beginning to end

`Supervisor.run` has an order of its own: it lets the workers run until both wait, lets
the loop go on as far as there are snapshots, and repeats that until the run has ended.
It comes to the verdict too, before its fuel is used up.

* `Supervision.Paced` says that the run is some steps into the verdict, as
  `Supervision.Running` does, with nothing more to come from the hardware.
* `Supervision.rounds` says that the rounds of `run` take it to the verdict.
* `Supervisor.runs_to_verdict` is the main statement, about every order of steps and
  about `run`.
-/

namespace Cosim

namespace Supervision

variable {job : Job} {k : Nat} {session : Session Line} {loop : Loop}

/-- The run is `k` steps into the verdict, the hardware has delivered everything, and
the caller waits. -/
def Paced (job : Job) (k : Nat) (session : Session Line) (loop : Loop) : Prop :=
  session.oracle.device.source.tail ≠ .opened ∧
    ∃ h marks last, Serves job { session, loop } h ∧ Running job { session, loop } h k marks last

namespace Paced

theorem goto (hp : Paced job k session loop) {loop' : Loop} (hold : loop.isPlain = true)
    (hnew : loop'.isPlain = true) : Paced job k session loop' := by
  obtain ⟨htail, h, marks, last, hs, hr⟩ := hp
  exact ⟨htail, h, marks, last, hs.of_device rfl rfl, hr.goto hold hnew⟩

theorem isRunning (hp : Paced job k session loop) : session.run.isRunning = true := by
  obtain ⟨-, h, marks, last, -, hr⟩ := hp
  exact hr.run_at.isRunning

theorem halted_eq (hp : Paced job k session loop) : session.run.halted = false := by
  obtain ⟨-, h, marks, last, -, hr⟩ := hp
  exact hr.run_at.halted_eq

/-- No more steps are taken than there are blocks. -/
theorem le_blocks (hp : Paced job k session loop) : k ≤ job.blocks.length := by
  obtain ⟨-, h, marks, last, hs, hr⟩ := hp
  have hpublished := hs.sound.published_le
  rw [job.wellFormed.firstBad_eq, ← hs.sound.inv.order, List.length_append, hr.taken_length]
    at hpublished
  rw [Job.blocks, Stream.length_blocks]
  omega

/-- A step in flight that gets an answer is one step of the verdict, or its end. -/
theorem poll (hp : Paced job k session .head) :
    (Oracle.poll session.oracle false = none ∧ session.oracle.device.exchange.take = none) ∨
      ∃ answer, Oracle.poll session.oracle false = some answer ∧
        (Paced job (k + 1) (({ session with oracle := answer.oracle }.log answer.notes).conclude
            answer.result false) .head ∨
          (({ session with oracle := answer.oracle }.log answer.notes).conclude
            answer.result false).run.Ended job.verdict) := by
  have hflies : Paced job k session (.taking 0) := hp.goto rfl rfl
  obtain ⟨htail, h, marks, last, hs, hr⟩ := hflies
  cases htake : session.oracle.device.exchange.take with
  | none => exact .inl ⟨Line.poll_of_none htake, rfl⟩
  | some taken =>
    right
    obtain ⟨result, x⟩ := taken
    cases result with
    | error e =>
      obtain ⟨h₁, hs₁, hr₁⟩ := hr.takeFailed hs rfl htake
      obtain ⟨-, hended⟩ := hr₁.conclude_error rfl
      have htake' : h.exchange.take = some (.error e, x) := by
        rw [hs.sound.exchange_eq]
        exact htake
      obtain ⟨rfl, -, -, -⟩ := hs.sound.inv.take_error htake'
      refine ⟨_, Line.poll_of_sealed htake false, .inr ?_⟩
      simp only [Session.log, List.append_nil]
      exact hended.run_ended
    | ok t =>
      obtain ⟨h₁, hs₁, hr₁⟩ := hr.take hs rfl htake
      have hr₂ := hr₁.copy hs₁ rfl
      obtain ⟨h₃, hs₃, hr₃⟩ := hr₂.reset (hs₁.of_device rfl rfl) rfl
      have hback := hs₃.sound.giveBack_eq hr₃.taker_eq
      obtain ⟨h₄, hs₄, hr₄⟩ := hr₃.giveBack hs₃ rfl hback
      obtain ⟨horacle, hnext⟩ := (hr₄.check hs₄ rfl).conclude_answer rfl
      have hback' : (x.reset t).giveBack t = .done { x.reset t with empty := some t } := hback
      refine ⟨_, Line.poll_of_taken htake hback' false, ?_⟩
      rcases hnext with ⟨marks', last', hr₆⟩ | hended
      · have hs₆ := (hs₄.accept _ 0).of_device (congrArg Line.device horacle) rfl
        refine .inl (Paced.goto ⟨fun hopen => ?_, h₄, marks', last', hs₆, hr₆⟩ rfl rfl)
        exact htail ((congrArg (·.device.source.tail) horacle).symm.trans hopen)
      · exact .inr hended.run_ended

end Paced

/-- Settled workers wait for the loop and leave it something to take; none of them has
complained. -/
theorem Paced.settleDevice {p : Pipeline} (hp : Paced job k p.session .head) :
    Paced job k p.settleDevice.session .head ∧
      ∃ taken, p.settleDevice.device.exchange.take = some taken := by
  obtain ⟨htail, h, marks, last, hs, hr⟩ := hp
  obtain ⟨h', hd, htaker, htakes, hk, hreader, hassembler⟩ := hs.sound.settle
  have hcalm := hk.calm.mpr hr.calm
  have hs' := hs.withDevice hd hk
  have hr' := hr.withDevice hcalm htaker htakes
  have hnone : p.device.settle.failures = [] := hs'.no_failure hcalm
  have hsame : p.settleDevice = p.withDevice p.device.settle := by
    simp only [Pipeline.settleDevice, hnone, List.foldl_nil]
    rw [← hnone]
  have htail' : p.device.settle.source.tail ≠ .opened := hk.tail_eq ▸ htail
  obtain ⟨result, x, htake⟩ := hd.take_answers hreader hassembler htail' hr'.taker_eq
  rw [hsame]
  exact ⟨⟨htail', h', marks, last, hs', hr'⟩, (result, x), htake⟩

/-- Complaints come too late for a run that has ended. -/
theorem ended_settleDevice {p : Pipeline} {v : Verdict} (hended : p.session.run.Ended v) :
    p.settleDevice.session.run.Ended v := by
  rcases p.settleDevice_eq with ⟨-, hsame⟩ | ⟨e, hsame⟩
  · rw [hsame]
    exact hended
  · have hended' : (p.withDevice { p.device.settle with failures := [] }).session.run.Ended v :=
      hended
    rw [hsame, Stepper.abort, (session_frozen hended').2.2 e]
    exact hended

/-- The run has ended with the verdict, or is at least `k` steps into it. -/
def Stands (job : Job) (k : Nat) (session : Session Line) : Prop :=
  session.run.Ended job.verdict ∨ ∃ k', k ≤ k' ∧ Paced job k' session .head

/-- Every round takes the run further into the verdict. -/
theorem rounds (job : Job) : Supervisor.Rounds job.blocks.length (Stands job) where
  mono := by
    rintro k k' session (hended | ⟨m, hm, hpaced⟩) hle
    · exact .inl hended
    · exact .inr ⟨m, by omega, hpaced⟩
  halted_eq := by
    rintro k session (hended | ⟨m, -, hpaced⟩)
    · rw [hended.halted_eq, hended.isRunning_eq, Bool.not_false]
    · rw [hpaced.halted_eq, hpaced.isRunning, Bool.not_true]
  le_bound := by
    rintro k session (hended | ⟨m, hm, hpaced⟩) hrun
    · simp [hended.isRunning_eq] at hrun
    · exact hm.trans hpaced.le_blocks
  late := by
    rintro k session (hended | ⟨m, -, hpaced⟩) hend k' t hrun
    · rw [← hrun] at hended
      rw [(session_frozen hended).1]
      exact ⟨.inl hended, .inl hended⟩
    · simp [hpaced.isRunning] at hend
  poll := by
    rintro k session (hended | ⟨m, hm, hpaced⟩) hrun
    · simp [hended.isRunning_eq] at hrun
    · rcases hpaced.poll with hwaits | ⟨answer, hpoll, hnext | hended⟩
      · exact .inl hwaits
      · exact .inr ⟨answer, hpoll, .inr ⟨m + 1, by omega, hnext⟩⟩
      · exact .inr ⟨answer, hpoll, .inl hended⟩
  settle := by
    rintro k p (hended | ⟨m, hm, hpaced⟩)
    · have hended' := ended_settleDevice hended
      exact ⟨.inl hended', fun hrun => by simp [hended'.isRunning_eq] at hrun⟩
    · obtain ⟨hpaced', htakes⟩ := hpaced.settleDevice
      exact ⟨.inr ⟨m, hm, hpaced'⟩, fun _ => htakes⟩

/-- A run that has a verdict before it does not go on for ever. -/
theorem Inv.ends {s : Supervision} {batch : Nat} (inv : s.Inv job)
    (hbatch : 1 ≤ batch) : ¬ Endless (Move batch) s :=
  not_endless effort (fun _ _ inv hmove => inv.move hmove)
    (fun _ _ inv hmove => inv.effort_lt hbatch hmove) inv

end Supervision

namespace Supervisor

open Supervision

variable {job : Job} {p : Pipeline} {h : Handover} {marks : Verdict.Marks} {last : List CoreState}

/-- A pipeline that has the whole verdict before it is run to its end. -/
theorem complete_describes {batch : Int} (hbatch : 1 ≤ batch) (hflight : p.flight = none)
    (hstream : p.device.source.queue = job.stream) (htail : p.device.source.tail ≠ .opened)
    (hs : (Supervision.start p []).Serves job h)
    (hr : (Supervision.start p []).Running job h 0 marks last) :
    job.verdict.Describes (complete p batch) := by
  have hsource : p.device.start.source = p.device.source := by
    unfold Device.start
    split <;> rfl
  have hpaced : Paced job 0 (p.withDevice p.device.start).session .head :=
    ⟨by rw [← hsource] at htail; exact htail, h, marks, last, hs, hr⟩
  have hfuel : job.blocks.length < patience p := by
    have hdiv := Nat.div_le_self (Stream.records job.stream).length job.cores
    rw [Stream.length_records, ← hstream] at hdiv
    rw [Job.blocks, Stream.length_blocks, Stream.length_records, ← hstream, patience]
    omega
  obtain ⟨q, hcomplete, hstands, hend⟩ := (rounds job).complete hbatch hflight
    (.inr ⟨0, Nat.le_refl 0, hpaced⟩) hfuel
  rw [hcomplete]
  rcases hstands with hended | ⟨k, -, hpaced⟩
  · exact ⟨hended.outcome_eq, hended.info_eq, hended.final_eq⟩
  · simp [hpaced.isRunning] at hend

/-- A pipeline over an accepted stream has the verdict on its blocks before it, and `run`
comes to that verdict. -/
theorem prepare_verdict {files : Files} {config : Config} {known : Bool} {source : Source}
    {notes : Journal} {pending : List UInt8} {golden : Option Golden} (hlow : 1 ≤ config.cores)
    (hhigh : config.cores ≤ maxCores) (hdepth : 1 ≤ config.poolDepth)
    (hroom : Pool.checkRoom config.poolDepth chunkSize = .ok ()) (hbatch : 1 ≤ config.stepBatch)
    (hopen : openDevice files config.image = .ok (source, notes))
    (htail : source.tail = .opened ∨ source.tail = .ended .finished ∧ pending = [])
    (hgolden : referenceOf files config known = .ok (.ok golden))
    (hw : Stream.WellFormed config.cores.toNat (source.queue ++ pending)) :
    ∃ p, prepare files config known = .ok (.ok p) ∧
      (Supervision.start p pending).Inv ⟨_, Golden.recordsOf golden, config.maxInstrs, _, hw⟩ ∧
      (source.tail = .ended .finished → ∃ result, run files config known false = .ok (.ok result) ∧
        (Job.mk _ (Golden.recordsOf golden) config.maxInstrs _ hw).verdict.Describes result) := by
  obtain ⟨p, h, hprepare, hflight, hsource, hs, hr⟩ := prepare_running hlow hhigh hdepth hroom hopen
    htail hgolden hw
  refine ⟨p, hprepare, ⟨h, hs, .inl ⟨0, _, _, hr⟩⟩,
    fun hends => ⟨complete p config.stepBatch, ?_, ?_⟩⟩
  · simp only [run, hprepare, bind, Except.bind]
    rfl
  · obtain rfl : pending = [] := by
      rcases htail with hopened | ⟨-, hnil⟩
      · simp [hends] at hopened
      · exact hnil
    exact complete_describes hbatch hflight (by simp [hsource]) (by simp [hsource, hends]) hs hr

/-- Every configuration within the limits, over a well-formed stream, ends with the
verdict on the complete blocks of that stream: however hardware, workers, loop and
caller take turns, and in the order in which `run` lets them. -/
theorem runs_to_verdict (files : Files) (config : Config) (known : Bool) (source : Source)
    (notes : Journal) (pending : List UInt8) (golden : Option Golden) (hlow : 1 ≤ config.cores)
    (hhigh : config.cores ≤ maxCores) (hdepth : 1 ≤ config.poolDepth)
    (hroom : Pool.checkRoom config.poolDepth chunkSize = .ok ()) (hbatch : 1 ≤ config.stepBatch)
    (hopen : openDevice files config.image = .ok (source, notes))
    (htail : source.tail = .opened ∨ source.tail = .ended .finished ∧ pending = [])
    (hgolden : referenceOf files config known = .ok (.ok golden))
    (hw : Stream.WellFormed config.cores.toNat (source.queue ++ pending)) :
    let verdict := Verdict.ofBlocks config.cores.toNat (Golden.recordsOf golden) config.maxInstrs
      (Stream.blocks config.cores.toNat (Stream.records (source.queue ++ pending)))
    ∃ p, prepare files config known = .ok (.ok p) ∧
      ¬ Endless (Supervision.Move config.stepBatch.toNat) (Supervision.start p pending) ∧
      (∀ s, Supervision.Reach config.stepBatch.toNat (Supervision.start p pending) s →
        s.Stuck config.stepBatch.toNat →
          ∃ result, s.caller = .done result ∧ verdict.Describes result) ∧
      (source.tail = .ended .finished →
        ∃ result, run files config known false = .ok (.ok result) ∧ verdict.Describes result) := by
  obtain ⟨p, hprepare, inv, hrun⟩ :=
    prepare_verdict hlow hhigh hdepth hroom hbatch hopen htail hgolden hw
  exact ⟨p, hprepare, inv.ends (by omega),
    fun s hreach hstuck => (inv.reach hreach).done_of_stuck hstuck, hrun⟩

/-- Two cores, one of them with a golden record, and an incomplete block at the end:
core 1 traps in the second block, with code 3. -/
theorem runs_to_verdict_bad_trap :
    let image := CoreState.encodeChunk 1 {} ++ CoreState.encodeChunk 0 {} ++
      CoreState.encodeChunk 0 {} ++
      CoreState.encodeChunk 1 { trap := { hasTrap := true, code := 3 } } ++
      CoreState.encodeChunk 0 {}
    let files : Files :=
      { entries := [(["image"], .regular image),
          (["golden"], .regular (CoreState.encodeChunk 0 {}))] }
    let config : Config :=
      { image := "image", diff := "golden", cores := 2, poolDepth := 3, stepBatch := 2
        maxInstrs := 100 }
    let outcome : Outcome :=
      { status := .failed, trapCode := 3, cause := some .trapCode, failure := some (.trapCode 3)
        steps := 2 }
    ∃ p, prepare files config true = .ok (.ok p) ∧
      ¬ Endless (Supervision.Move 2) (Supervision.start p []) ∧
      (∀ s, Supervision.Reach 2 (Supervision.start p []) s → s.Stuck 2 →
        ∃ result, s.caller = .done result ∧ result.outcome = outcome) ∧
      ∃ result, run files config true false = .ok (.ok result) ∧ result.outcome = outcome := by
  intro image files config outcome
  have hverdict : (Verdict.ofBlocks 2
      (Golden.recordsOf (some { lanes := #[{ records := #[{}] }, {}] })) 100
      (Stream.blocks 2 (Stream.records (image ++ [])))).outcome = outcome := by
    decide +kernel
  have hfind : files.find config.image = .ok (.regular image) := by decide +kernel
  obtain ⟨notes, hopen⟩ := openDevice_regular hfind
  obtain ⟨p, hprepare, hends, hdone, hrun⟩ := runs_to_verdict files config true _ notes []
    (some { lanes := #[{ records := #[{}] }, {}] }) (by decide) (by decide) (by decide) (by decide)
    (by decide) hopen (.inr ⟨rfl, rfl⟩) (by decide +kernel) (by decide +kernel)
  refine ⟨p, hprepare, hends, fun s hreach hstuck => ?_, ?_⟩
  · obtain ⟨result, hcaller, hdescribes⟩ := hdone s hreach hstuck
    exact ⟨result, hcaller, hdescribes.outcome_eq.trans hverdict⟩
  · obtain ⟨result, hresult, hdescribes⟩ := hrun rfl
    exact ⟨result, hresult, hdescribes.outcome_eq.trans hverdict⟩

end Supervisor

end Cosim

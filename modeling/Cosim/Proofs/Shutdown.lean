import Cosim.Proofs.Halting

/-!
# Stopping a device

A device can be stopped at any moment, whatever its workers are doing.  Between the actions
of the stop the hardware, the workers and the checker go on taking steps.

* `Shutdown` is a device that is fed, drained and stopped, and `Shutdown.Step` lists the
  steps of everybody, each with its name.
* `Shutdown.Inv.step` is the step lemma and `Shutdown.Inv.path` the run lemma.
* `Shutdown.Quiet` says what a stop does and what it leaves alone, and
  `Shutdown.stops_quietly` that it holds at every moment.
-/

namespace Cosim

/-! ## A device that is fed, drained and stopped -/

/-- A device between the hardware and a checker, which somebody may stop. -/
structure Shutdown where
  intake : Intake
  /-- The actions of the stop that are still to be taken, once it has begun. -/
  todo : Option (List Device.Halt) := none

namespace Shutdown

/-- The device with its hardware and its checker, before the first byte. -/
def start (cores depth : Int) (maxRead : Nat) (stream : List UInt8) : Except Fault Shutdown := do
  let intake ← Intake.start cores depth maxRead stream
  return { intake }

/-- The device at its present state. -/
def device (s : Shutdown) : Device := s.intake.device

/-- The same with another device. -/
def withDevice (s : Shutdown) (device : Device) : Shutdown :=
  { s with intake := { s.intake with device } }

@[simp] theorem device_withDevice (s : Shutdown) (d : Device) : (s.withDevice d).device = d := rfl

/-- The snapshots that were handed over: those that were taken, and the one that waits. -/
def delivered (s : Shutdown) : List Snapshot :=
  s.intake.taken ++ (s.device.exchange.full.map s.device.exchange.snapshot).toList

/-- Whose step it is. -/
inductive Act where
  /-- The reader's. -/
  | reader
  /-- The assembler's, one that does not seal the exchange. -/
  | assembler
  /-- The assembler's, the one that seals the exchange. -/
  | sealing
  /-- That of the hardware, of the checker, or of whoever stops the device. -/
  | other
deriving DecidableEq, Repr

/-- One step of the hardware, of a worker, of the checker, or of the stop. -/
inductive Step : Shutdown → Act → Shutdown → Prop where
  | reader {s d} (hnext : d ∈ s.device.readerNext) : Step s .reader (s.withDevice d)
  | assembler {s d} (hnext : d ∈ s.device.assemblerNext) (hexit : d.assemblerExit ≠ .closing) :
      Step s .assembler (s.withDevice d)
  | sealing {s d} (hnext : d ∈ s.device.assemblerNext) (hexit : d.assemblerExit = .closing) :
      Step s .sealing (s.withDevice d)
  /-- The hardware or the checker, which leave the workers where they stand. -/
  | outside {s intake} (hmove : Intake.Move s.intake intake)
      (hreader : intake.device.reader = s.device.reader)
      (hassembler : intake.device.assembler = s.device.assembler)
      (hexits : intake.device.readerExit = s.device.readerExit ∧
        intake.device.assemblerExit = s.device.assemblerExit) :
      Step s .other { s with intake }
  /-- The context of the workers is cancelled without a stop. -/
  | abandon {s} (hfirst : s.device.abandoned = false) :
      Step s .other (s.withDevice s.device.abandon)
  /-- A stop begins. -/
  | begin {s} (htodo : s.todo = none) :
      Step s .other
        { s.withDevice { s.device with stopped := true } with todo := some Device.Halt.all }
  /-- The stop takes its next action. -/
  | halt {s action rest} (htodo : s.todo = some (action :: rest)) :
      Step s .other { s.withDevice (s.device.halt action) with todo := some rest }

/-- The steps of a run, in order, from one state to another. -/
inductive Path : Shutdown → List Act → Shutdown → Prop where
  | nil {s} : Path s [] s
  | snoc {s s' s'' acts act} (hpath : Path s acts s') (hstep : Step s' act s'') :
      Path s (acts ++ [act]) s''

theorem Path.append {s s' s'' : Shutdown} {acts acts' : List Act} (hpath : Path s acts s')
    (hpath' : Path s' acts' s'') : Path s (acts ++ acts') s'' := by
  induction hpath' with
  | nil => simpa using hpath
  | snoc _ hstep ih =>
    rw [← List.append_assoc]
    exact ih.snoc hstep

/-! ## The invariant -/

/-- What holds between the steps of everybody. -/
structure Inv (cores : Nat) (stream : List UInt8) (acts : List Act) (s : Shutdown) : Prop where
  serving : ∃ h, s.intake.Serving cores stream h
  started : s.device.started = true
  fresh : s.todo = none → s.device.stopped = false
  /-- The actions are taken in order. -/
  suffix : ∀ rest, s.todo = some rest → rest <:+ Device.Halt.all
  /-- An action that is not to be taken any more has been taken. -/
  took : ∀ rest, s.todo = some rest → ∀ action, action ∉ rest → s.device.Took action
  lowered : s.device.source.isClosed = true → s.device.signals.running = false
  tame : s.device.reader.phase.Tame s.device.signals
  seals : acts.count .sealing = if s.device.assemblerExit = .pending then 0 else 1

variable {cores : Nat} {stream : List UInt8} {acts acts' : List Act} {act : Act}
  {s s' s'' : Shutdown}

/-- Hardware, workers and checker neither stop the device nor cancel anything. -/
theorem stopped_of_move {i i' : Intake} (hmove : Intake.Move i i') :
    i'.device.stopped = i.device.stopped ∧ i'.device.abandoned = i.device.abandoned := by
  cases hmove with
  | feed | finish | take | takeFailed | reset | giveBack => exact ⟨rfl, rfl⟩
  | reader hnext =>
    rcases Device.mem_readerNext hnext with ⟨r, s, p, -, rfl⟩ |
      ⟨failure, -, ⟨-, rfl⟩ | ⟨-, rfl⟩⟩ <;> exact ⟨rfl, rfl⟩
  | assembler hnext =>
    rcases Device.mem_assemblerNext hnext with ⟨a, p, x, -, rfl⟩ |
      ⟨failure, -, ⟨-, rfl⟩ | ⟨-, rfl⟩⟩ <;> exact ⟨rfl, rfl⟩

/-- A step of the hardware, a worker or the checker keeps what the others rely on. -/
theorem Inv.move (inv : s.Inv cores stream acts) {i : Intake} (hmove : Intake.Move s.intake i)
    (htame : i.device.reader.phase.Tame s.device.signals)
    (hseals : acts'.count .sealing = if i.device.assemblerExit = .pending then 0 else 1) :
    { s with intake := i }.Inv cores stream acts' := by
  obtain ⟨h, hs⟩ := inv.serving
  obtain ⟨hsignals, hsource, hpool, hstarted⟩ := Intake.Serving.flags hs hmove
  obtain ⟨hstopped, -⟩ := stopped_of_move hmove
  exact
    { serving := Intake.Serving.move hs hmove
      started := hstarted.trans inv.started
      fresh := fun htodo => hstopped.trans (inv.fresh htodo)
      suffix := inv.suffix
      took := fun rest htodo action hnot =>
        (inv.took rest htodo action hnot).of_flags hsignals hsource hpool
      lowered := by
        show i.device.source.isClosed = true → i.device.signals.running = false
        rw [hsource, hsignals]
        exact inv.lowered
      tame := by
        show i.device.reader.phase.Tame i.device.signals
        rwa [hsignals]
      seals := hseals }

/-- The stop signal comes before the source is closed. -/
theorem lower_not_mem {rest : List Device.Halt}
    (hsuffix : .closeSource :: rest <:+ Device.Halt.all) :
    Device.Halt.lower ∉ Device.Halt.closeSource :: rest := by
  simp [Device.Halt.all, List.suffix_cons_iff] at hsuffix
  simp [hsuffix]

theorem Inv.seals_other (inv : s.Inv cores stream acts) (hact : act ≠ .sealing) :
    (acts ++ [act]).count .sealing = if s.device.assemblerExit = .pending then 0 else 1 := by
  rw [List.count_append, List.count_singleton, beq_false_of_ne hact]
  exact inv.seals

theorem Inv.abandon (inv : s.Inv cores stream acts) :
    (s.withDevice s.device.abandon).Inv cores stream (acts ++ [Act.other]) := by
  obtain ⟨h, hd, hchecker, htakes⟩ := inv.serving
  exact
    { serving := ⟨h, hd.abandon, hchecker, htakes⟩
      started := inv.started
      fresh := inv.fresh
      suffix := inv.suffix
      took := fun rest htodo action hnot => (inv.took rest htodo action hnot).abandon
      lowered := fun hclosed => (Device.running_abandon _).trans (inv.lowered hclosed)
      tame := inv.tame.mono fun hlow => (Device.running_abandon _).trans hlow
      seals := inv.seals_other (by simp) }

theorem Inv.begin (inv : s.Inv cores stream acts) :
    { s.withDevice { s.device with stopped := true } with todo := some Device.Halt.all }.Inv cores
      stream (acts ++ [Act.other]) := by
  obtain ⟨h, hd, hchecker, htakes⟩ := inv.serving
  exact
    { serving := ⟨h, hd.begin, hchecker, htakes⟩
      started := inv.started
      fresh := by simp
      suffix := by simp
      took := by
        rintro rest hrest action hnot
        cases hrest
        cases action <;> simp [Device.Halt.all] at hnot
      lowered := inv.lowered
      tame := inv.tame
      seals := inv.seals_other (by simp) }

theorem Inv.halt {action : Device.Halt} {rest : List Device.Halt} (inv : s.Inv cores stream acts)
    (htodo : s.todo = some (action :: rest)) :
    { s.withDevice (s.device.halt action) with todo := some rest }.Inv cores stream
      (acts ++ [Act.other]) := by
  obtain ⟨h, hd, hchecker, htakes⟩ := inv.serving
  obtain ⟨hstarted, hreader, -, -, hexit⟩ := s.device.halt_frame action
  have hsuffix := inv.suffix _ htodo
  have hlow : s.device.signals.running = false → (s.device.halt action).signals.running = false :=
    fun hlow => (show s.device.Took .lower from hlow).halt action
  exact
    { serving := ⟨h, hd.halt action, hchecker, htakes⟩
      started := hstarted.trans inv.started
      fresh := by simp
      suffix := by
        rintro rest' hrest
        cases hrest
        exact (List.suffix_cons action rest).trans hsuffix
      took := by
        rintro rest' hrest other hnot
        cases hrest
        by_cases hsame : other = action
        · subst hsame
          exact Device.took_halt inv.started other
        · exact (inv.took _ htodo other (by simp [hsame, hnot])).halt action
      lowered := by
        intro hclosed
        rcases Device.closed_halt hclosed with rfl | hbefore
        · exact inv.took _ htodo .lower (lower_not_mem hsuffix)
        · exact hlow (inv.lowered hbefore)
      tame := by
        show (s.device.halt action).reader.phase.Tame _
        rw [hreader]
        exact inv.tame.mono hlow
      seals := by
        show _ = if (s.device.halt action).assemblerExit = _ then 0 else 1
        rw [hexit]
        exact inv.seals_other (by simp) }

theorem Inv.step (inv : s.Inv cores stream acts) (hwhole : chunkSize ∣ stream.length)
    (hstep : Step s act s') : s'.Inv cores stream (acts ++ [act]) := by
  obtain ⟨h, hd, -, -⟩ := inv.serving
  change s.device.Sound cores stream s.intake.pending h at hd
  cases hstep with
  | reader hnext =>
    refine inv.move (.reader hnext) ?_ ?_
    · exact hd.tame_readerNext hwhole inv.lowered inv.tame hnext
    · rw [Device.assemblerExit_of_readerNext hnext]
      exact inv.seals_other (by simp)
  | assembler hnext hexit =>
    refine inv.move (.assembler hnext) ?_ ?_
    · rw [Device.reader_of_assemblerNext hnext]
      exact inv.tame
    · have honce := hd.seals_once hnext
      rw [if_neg hexit] at honce
      simp only [honce]
      exact inv.seals_other (by simp)
  | sealing hnext hexit =>
    refine inv.move (.assembler hnext) ?_ ?_
    · rw [Device.reader_of_assemblerNext hnext]
      exact inv.tame
    · have honce := hd.seals_once hnext
      rw [if_pos hexit] at honce
      have hnone := inv.seals
      rw [if_pos honce] at hnone
      simp [hexit, hnone]
  | outside hmove hreader hassembler hexits =>
    refine inv.move hmove ?_ ?_
    · rw [hreader]
      exact inv.tame
    · rw [hexits.2]
      exact inv.seals_other (by simp)
  | abandon hfirst => exact inv.abandon
  | begin htodo => exact inv.begin
  | halt htodo => exact inv.halt htodo

theorem Inv.path (inv : s.Inv cores stream acts) (hwhole : chunkSize ∣ stream.length)
    (hpath : Path s acts' s') : s'.Inv cores stream (acts ++ acts') := by
  induction hpath with
  | nil => simpa using inv
  | snoc _ hstep ih =>
    rw [← List.append_assoc]
    exact ih.step hwhole hstep

/-- A device that has just been started. -/
theorem start_inv {cores depth : Int} (hlow : 1 ≤ cores) (hhigh : cores ≤ maxCores)
    (hdepth : 1 ≤ depth) (hroom : Pool.checkRoom depth chunkSize = .ok ()) (maxRead : Nat)
    (stream : List UInt8) :
    ∃ s, start cores depth maxRead stream = .ok s ∧ s.Inv cores.toNat stream [] := by
  obtain ⟨d, hcreate, -, hcalm, hd⟩ := Device.create_sound { maxRead } stream hlow hhigh
    hdepth hroom rfl (.inl rfl)
  refine ⟨{ intake := { device := d.start, pending := stream } }, ?_, ?_⟩
  · simp only [start, Intake.start, hcreate]
    rfl
  · obtain ⟨pool, x, assembler, -, -, rfl⟩ := Device.create_parts hcreate
    exact
      { serving := ⟨_, hd, rfl, rfl⟩
        started := rfl
        fresh := fun _ => rfl
        suffix := by simp
        took := by simp
        lowered := fun hclosed => by cases hclosed
        tame := trivial
        seals := rfl }

/-! ## Few steps are left -/

/-- Everything that a stop does has been done. -/
theorem Inv.took_all (inv : s.Inv cores stream acts) (htodo : s.todo = some []) :
    ∀ action, s.device.Took action :=
  fun action => inv.took [] htodo action (by simp)

/-- A step after the stop is one of the few that its worker has left. -/
theorem Inv.left_step (inv : s.Inv cores stream acts) (htodo : s.todo = some [])
    (hstep : Step s act s') :
    s'.todo = some [] ∧
      [act].count .reader + s'.device.readerLeft ≤ s.device.readerLeft ∧
      [act].count .assembler + [act].count .sealing + s'.device.assemblerLeft ≤
        s.device.assemblerLeft := by
  have htook := inv.took_all htodo
  cases hstep with
  | reader hnext =>
    have := Device.readerLeft_lt htook hnext
    refine ⟨htodo, ?_, ?_⟩ <;> simp <;> omega
  | assembler hnext | sealing hnext =>
    have := Device.assemblerLeft_lt htook hnext
    refine ⟨htodo, ?_, ?_⟩ <;> simp <;> omega
  | outside hmove hreader hassembler hexits =>
    refine ⟨htodo, ?_, ?_⟩
    · simp [device, Device.readerLeft, hreader, hexits.1]
    · simp [device, Device.assemblerLeft, hassembler, hexits.2]
  | abandon hfirst =>
    refine ⟨htodo, ?_, ?_⟩
    · simp [Device.readerLeft, Device.abandon]
    · simp [Device.assemblerLeft, Device.abandon]
  | begin hnone => simp [htodo] at hnone
  | halt hmore => simp [htodo] at hmore

theorem Inv.left_path (inv : s.Inv cores stream acts) (hwhole : chunkSize ∣ stream.length)
    (htodo : s.todo = some []) (hpath : Path s acts' s') :
    s'.todo = some [] ∧
      acts'.count .reader + s'.device.readerLeft ≤ s.device.readerLeft ∧
      acts'.count .assembler + acts'.count .sealing + s'.device.assemblerLeft ≤
        s.device.assemblerLeft := by
  induction hpath with
  | nil => simp [htodo]
  | snoc hpath hstep ih =>
    obtain ⟨htodo', hreader, hassembler⟩ := ih
    obtain ⟨htodo'', hreader', hassembler'⟩ := (inv.path hwhole hpath).left_step htodo' hstep
    refine ⟨htodo'', ?_, ?_⟩
    · rw [List.count_append]
      omega
    · rw [List.count_append, List.count_append]
      omega

/-! ## Every run ends -/

/-- What is left to do for everybody, and for the stop. -/
def effort (s : Shutdown) : Nat :=
  s.intake.effort + (s.todo.elim 5 List.length) + (!s.device.abandoned).toNat

/-- What there is to do for hardware, workers and checker does not depend on the signals. -/
theorem effort_withDevice {d : Device} (hwork : d.work = s.device.work)
    (htail : d.source.tail = s.device.source.tail) (hexchange : d.exchange = s.device.exchange) :
    (s.withDevice d).intake.effort = s.intake.effort := by
  simp only [withDevice, Intake.effort, Intake.goesOn, hwork, htail, hexchange]
  rfl

theorem Inv.effort_move (inv : s.Inv cores stream acts) {i : Intake}
    (hmove : Intake.Move s.intake i) : { s with intake := i }.effort < s.effort := by
  obtain ⟨h, hs⟩ := inv.serving
  have hless := Intake.Serving.effort_lt hs hmove
  obtain ⟨-, habandoned⟩ := stopped_of_move hmove
  simp only [effort, device, habandoned]
  omega

theorem Inv.effort_lt (inv : s.Inv cores stream acts) (hstep : Step s act s') :
    s'.effort < s.effort := by
  cases hstep with
  | reader hnext => exact inv.effort_move (.reader hnext)
  | assembler hnext | sealing hnext => exact inv.effort_move (.assembler hnext)
  | outside hmove => exact inv.effort_move hmove
  | abandon hfirst =>
    have hsame := effort_withDevice (s := s) (d := s.device.abandon) rfl rfl rfl
    show (s.withDevice _).intake.effort + s.todo.elim 5 List.length + 0 < s.effort
    rw [hsame, effort, hfirst]
    exact Nat.lt_succ_self _
  | begin htodo =>
    have hsame := effort_withDevice (s := s) (d := { s.device with stopped := true }) rfl rfl rfl
    show (s.withDevice _).intake.effort + 4 + (!s.device.abandoned).toNat < s.effort
    rw [hsame, effort, htodo, Option.elim]
    omega
  | @halt action rest htodo =>
    obtain ⟨hwork, htail, hexchange, habandoned⟩ := s.device.work_halt action
    have hsame := effort_withDevice hwork htail hexchange
    show (s.withDevice _).intake.effort + rest.length + (!(s.device.halt action).abandoned).toNat <
      s.effort
    rw [hsame, habandoned, effort, htodo, Option.elim, List.length_cons]
    omega

/-! ## Quiet stops -/

/-- What a stop does and what it leaves alone, at any moment of a run: before the stop, in
the middle of it, and after. -/
structure Quiet (cores : Nat) (stream : List UInt8) (acts : List Act) (s : Shutdown) : Prop where
  reader_returned : ∀ failure, s.device.reader.phase = .returned failure → failure = none
  assembler_returned : ∀ failure, s.device.assembler.phase = .returned failure → failure = none
  /-- Nobody is told of an error. -/
  failures_eq : s.device.failures = []
  /-- The exchange is sealed once. -/
  sealed_once : acts.count .sealing = s.device.exchange.isSealed.toNat
  /-- What was handed over are the first blocks of the stream. -/
  delivered_prefix :
    s.delivered.map Snapshot.records <+: Stream.blocks cores (Stream.records stream)
  delivered_numbered : ∀ (k : Nat) (snapshot : Snapshot), s.delivered[k]? = some snapshot →
    snapshot.seq = .ofNat (k + 1)
  /-- A reader that waits does so for a chunk or for bytes, and not to hand something over. -/
  reader_waits : s.device.readerNext = [] → s.device.readerExit = .done ∨
    s.device.reader.phase = .acquire ∨ ∃ chunk got, s.device.reader.phase = .fill chunk got
  /-- An assembler that waits does so for a record or for an empty snapshot. -/
  assembler_waits : s.device.assemblerNext = [] → s.device.assemblerExit = .done ∨
    s.device.assembler.phase = .acquire ∨ ∃ chunk core, s.device.assembler.phase = .claim chunk core
  /-- After the stop no worker waits, -/
  no_waiting : s.todo = some [] →
    (s.device.readerNext = [] → s.device.readerExit = .done) ∧
      (s.device.assemblerNext = [] → s.device.assemblerExit = .done)
  /-- and none has many steps left, whatever the others do. -/
  few_steps : s.todo = some [] → ∀ acts' s', Path s acts' s' →
    acts'.count .reader ≤ 5 ∧ acts'.count .assembler + acts'.count .sealing ≤ 10
  /-- A stop that has begun ends both workers, whichever steps are taken. -/
  stop_ends : s.todo.isSome → Inevitable (fun a b => ∃ act, Step a act b) (·.device.Finished) s
  run_ends : ¬ Endless (fun a b => ∃ act, Step a act b) s
  /-- A stop without interruption, after which the workers run as far as they can. -/
  settles : s.todo = none → s.device.stop.1.settle.Finished

theorem Inv.failure_eq (inv : s.Inv cores stream acts)
    (hgood : Stream.refusal cores (Stream.records stream) = none) :
    (∀ failure, s.device.reader.phase = .returned failure → failure = none) ∧
      (∀ failure, s.device.assembler.phase = .returned failure → failure = none) ∧
      s.device.failures = [] := by
  obtain ⟨h, hd, -, -⟩ := inv.serving
  change s.device.Sound cores stream s.intake.pending h at hd
  have hreader : ∀ failure, s.device.reader.phase = .returned failure → failure = none := by
    intro failure hphase
    have ht := inv.tame
    rw [hphase] at ht
    exact ht
  have hassembler : ∀ failure, s.device.assembler.phase = .returned failure → failure = none := by
    rintro (_ | e) hphase
    · rfl
    · obtain ⟨acquired, filed, -, ha⟩ := hd.assembled
      obtain ⟨-, hrefusal⟩ := ha.refused e hphase
      rw [hgood] at hrefusal
      cases hrefusal
  refine ⟨hreader, hassembler, List.eq_nil_iff_forall_not_mem.mpr fun e he => ?_⟩
  rcases hd.failures e he with hphase | hphase
  · cases hreader _ hphase
  · cases hassembler _ hphase

/-- What was handed over are the first blocks of the stream. -/
theorem Inv.delivered_eq (inv : s.Inv cores stream acts) :
    s.delivered.map Snapshot.records <+: Stream.blocks cores (Stream.records stream) ∧
      ∀ (k : Nat) (snapshot : Snapshot), s.delivered[k]? = some snapshot →
        snapshot.seq = .ofNat (k + 1) := by
  obtain ⟨h, hd, -, htakes⟩ := inv.serving
  have horder : s.delivered = h.published := by
    rw [← hd.inv.order]
    simp only [delivered, Intake.taken, Handover.taken, Handover.pending, htakes, hd.exchange_eq]
    rfl
  rw [horder]
  refine ⟨List.prefix_iff_getElem?.mpr fun k hk => ?_, fun k snapshot hk => (hd.published hk).1⟩
  rw [List.length_map] at hk
  obtain ⟨-, hholds, -⟩ := hd.published (List.getElem?_eq_getElem hk)
  have hle := hd.published_le
  have hdiv : Stream.firstBad cores (Stream.records stream) / cores ≤ _ / cores :=
    Nat.div_le_div_right Stream.firstBad_le
  rw [Stream.getElem?_blocks (by omega), List.getElem_map, hholds.records_eq]

/-- Workers that cannot move after a stop have finished. -/
theorem Inv.finished (inv : s.Inv cores stream acts)
    (hgood : Stream.refusal cores (Stream.records stream) = none) (htodo : s.todo = some [])
    (hreader : s.device.readerNext = []) (hassembler : s.device.assemblerNext = []) :
    s.device.Finished := by
  obtain ⟨hreader', hassembler', hfailures⟩ := inv.failure_eq hgood
  have htook := inv.took_all htodo
  obtain ⟨h, hd, -, -⟩ := inv.serving
  change s.device.Sound cores stream s.intake.pending h at hd
  have hdone := hd.reader_released hreader (htook .cancel) (htook .closeSource)
  have hdone' := hd.assembler_released hassembler (htook .cancel)
  obtain ⟨failure, hphase⟩ := hd.reader_over (by simp [hdone])
  obtain ⟨failure', hphase'⟩ := hd.assembler_over (by simp [hdone'])
  exact
    { reader_returned := hreader' failure hphase ▸ hphase
      assembler_returned := hassembler' failure' hphase' ▸ hphase'
      reader_done := hdone
      assembler_done := hdone'
      exchange_sealed := hd.exchange_sealed.mpr (by simp [hdone'])
      failures_eq := hfailures }

/-- Settling is one of the runs of the workers. -/
theorem path_settle_go (fuel : Nat) (s : Shutdown) :
    ∃ acts, Path s acts (s.withDevice (Device.settle.go fuel s.device)) := by
  induction fuel generalizing s with
  | zero => exact ⟨[], .nil⟩
  | succ fuel ih =>
    cases hadvance : s.device.advance with
    | none =>
      simp only [Device.settle.go, hadvance]
      exact ⟨[], .nil⟩
    | some d =>
      simp only [Device.settle.go, hadvance]
      obtain ⟨acts, hpath⟩ := ih (s.withDevice d)
      have hstep : ∃ act, Step s act (s.withDevice d) := by
        rcases Device.mem_next_of_advance hadvance with hnext | hnext
        · exact ⟨_, .reader hnext⟩
        · by_cases hexit : d.assemblerExit = .closing
          · exact ⟨_, .sealing hnext hexit⟩
          · exact ⟨_, .assembler hnext hexit⟩
      obtain ⟨act, hstep⟩ := hstep
      exact ⟨_, (Path.nil.snoc hstep).append hpath⟩

/-- So are the actions of a stop without interruption. -/
theorem path_halts {rest : List Device.Halt} (htodo : s.todo = some rest) :
    ∃ acts, Path s acts
      { s.withDevice (rest.foldl Device.halt s.device) with todo := some [] } := by
  induction rest generalizing s with
  | nil =>
    refine ⟨[], ?_⟩
    rw [← htodo]
    exact .nil
  | cons action rest ih =>
    have hstep := Step.halt htodo
    obtain ⟨acts, hpath⟩ :=
      ih (s := { s.withDevice (s.device.halt action) with todo := some rest }) rfl
    exact ⟨_, (Path.nil.snoc hstep).append hpath⟩

theorem path_stop (htodo : s.todo = none) (hfresh : s.device.stopped = false) :
    ∃ acts, Path s acts { s.withDevice s.device.stop.1 with todo := some [] } := by
  have hstop : s.device.stop.1 =
      Device.Halt.all.foldl Device.halt { s.device with stopped := true } := by
    simp only [Device.stop, hfresh]
    rfl
  rw [hstop]
  obtain ⟨acts, hpath⟩ := path_halts
    (s := { s.withDevice { s.device with stopped := true } with todo := some Device.Halt.all }) rfl
  exact ⟨_, (Path.nil.snoc (.begin htodo)).append hpath⟩

/-- A device that is stopped without interruption and then settles has finished. -/
theorem Inv.settles (inv : s.Inv cores stream acts) (hwhole : chunkSize ∣ stream.length)
    (hgood : Stream.refusal cores (Stream.records stream) = none) (htodo : s.todo = none) :
    s.device.stop.1.settle.Finished := by
  obtain ⟨acts₁, hstop⟩ := path_stop htodo (inv.fresh htodo)
  have inv₁ := inv.path hwhole hstop
  obtain ⟨acts₂, hsettle⟩ := path_settle_go s.device.stop.1.patience
    { s.withDevice s.device.stop.1 with todo := some [] }
  obtain ⟨h, hd, -, -⟩ := inv₁.serving
  obtain ⟨-, -, -, -, -, hreader, hassembler⟩ := hd.settle
  exact (inv₁.path hwhole hsettle).finished hgood rfl hreader hassembler

/-- When nobody can take a step, a stop that has begun has come to its end. -/
theorem Inv.finished_of_stuck (inv : s.Inv cores stream acts)
    (hgood : Stream.refusal cores (Stream.records stream) = none) (hbegun : s.todo.isSome)
    (hstuck : ∀ s', ¬ ∃ act, Step s act s') : s.device.Finished := by
  obtain ⟨rest, htodo⟩ := Option.isSome_iff_exists.mp hbegun
  cases rest with
  | cons action rest => exact absurd ⟨_, .halt htodo⟩ (hstuck _)
  | nil =>
    refine inv.finished hgood htodo ?_ ?_
    · exact List.eq_nil_iff_forall_not_mem.mpr fun d hnext => hstuck _ ⟨_, .reader hnext⟩
    · refine List.eq_nil_iff_forall_not_mem.mpr fun d hnext => ?_
      by_cases hexit : d.assemblerExit = .closing
      · exact hstuck _ ⟨_, .sealing hnext hexit⟩
      · exact hstuck _ ⟨_, .assembler hnext hexit⟩

/-- A stop is not called off. -/
theorem Step.begun (hstep : Step s act s') (hbegun : s.todo.isSome) : s'.todo.isSome := by
  cases hstep with
  | reader | assembler | sealing | outside | abandon => exact hbegun
  | begin | halt => rfl

theorem Inv.run_ends (inv : s.Inv cores stream acts) (hwhole : chunkSize ∣ stream.length) :
    ¬ Endless (fun a b => ∃ act, Step a act b) s := by
  have hkeeps : ∀ a b, (∃ acts, a.Inv cores stream acts) → (∃ act, Step a act b) →
      ∃ acts, b.Inv cores stream acts := by
    rintro a b ⟨acts, inv⟩ ⟨act, hstep⟩
    exact ⟨_, inv.step hwhole hstep⟩
  refine not_endless effort hkeeps ?_ ⟨acts, inv⟩
  rintro a b ⟨acts, inv⟩ ⟨act, hstep⟩
  exact inv.effort_lt hstep

/-- A stop that has begun comes to its end, whichever steps are taken. -/
theorem Inv.stop_ends (inv : s.Inv cores stream acts) (hwhole : chunkSize ∣ stream.length)
    (hgood : Stream.refusal cores (Stream.records stream) = none) (hbegun : s.todo.isSome) :
    Inevitable (fun a b => ∃ act, Step a act b) (·.device.Finished) s := by
  refine inevitable_of_measure
    (fun a => (∃ acts, a.Inv cores stream acts) ∧ a.todo.isSome) effort ?_ ?_ ?_
    ⟨⟨acts, inv⟩, hbegun⟩
  · rintro a b ⟨⟨acts, inv⟩, hbegun⟩ ⟨act, hstep⟩
    exact ⟨⟨_, inv.step hwhole hstep⟩, hstep.begun hbegun⟩
  · rintro a b ⟨⟨acts, inv⟩, -⟩ ⟨act, hstep⟩
    exact inv.effort_lt hstep
  · rintro a ⟨⟨acts, inv⟩, hbegun⟩ hstuck
    exact inv.finished_of_stuck hgood hbegun hstuck

theorem Inv.quiet (inv : s.Inv cores stream acts) (hwhole : chunkSize ∣ stream.length)
    (hgood : Stream.refusal cores (Stream.records stream) = none) :
    s.Quiet cores stream acts := by
  obtain ⟨hreader, hassembler, hfailures⟩ := inv.failure_eq hgood
  obtain ⟨hblocks, hnumbered⟩ := inv.delivered_eq
  obtain ⟨h, hd, -, -⟩ := inv.serving
  change s.device.Sound cores stream s.intake.pending h at hd
  exact
    { reader_returned := hreader
      assembler_returned := hassembler
      failures_eq := hfailures
      sealed_once := by
        rw [inv.seals]
        have hsealed := hd.exchange_sealed
        cases hexit : s.device.exchange.isSealed <;> simp_all
      delivered_prefix := hblocks
      delivered_numbered := hnumbered
      reader_waits := fun hnil =>
        (hd.reader_waits hnil).imp_right (Or.imp And.left And.left)
      assembler_waits := fun hnil =>
        (hd.assembler_waits hnil).imp_right (Or.imp And.left And.left)
      no_waiting := by
        intro htodo
        have htook := inv.took_all htodo
        exact ⟨fun hnil => hd.reader_released hnil (htook .cancel) (htook .closeSource),
          fun hnil => hd.assembler_released hnil (htook .cancel)⟩
      few_steps := by
        intro htodo acts' s' hpath
        obtain ⟨-, hread, hassemble⟩ := inv.left_path hwhole htodo hpath
        have := s.device.readerLeft_le
        have := s.device.assemblerLeft_le
        omega
      stop_ends := inv.stop_ends hwhole hgood
      run_ends := inv.run_ends hwhole
      settles := inv.settles hwhole hgood }

/-- Whatever the workers are doing when a device is stopped, and whatever happens between
the actions of the stop, both workers end soon and without an error, and the checker has
been given nothing but the first blocks of the stream. -/
theorem stops_quietly (cores depth : Int) (hlow : 1 ≤ cores) (hhigh : cores ≤ maxCores)
    (hdepth : 1 ≤ depth) (hroom : Pool.checkRoom depth chunkSize = .ok ()) (maxRead : Nat)
    (stream : List UInt8) (hwhole : chunkSize ∣ stream.length)
    (hgood : Stream.refusal cores.toNat (Stream.records stream) = none) :
    ∃ s₀, start cores depth maxRead stream = .ok s₀ ∧
      ∀ acts s, Path s₀ acts s → s.Quiet cores.toNat stream acts := by
  obtain ⟨s₀, hstart, inv⟩ := start_inv hlow hhigh hdepth hroom maxRead stream
  exact ⟨s₀, hstart, fun acts s hpath => (inv.path hwhole hpath).quiet hwhole hgood⟩

/-- Two cores over a single chunk.  A stop that begins at once ends both workers, whatever
the hardware has delivered by then, and so does one that is not interrupted. -/
theorem stops_quietly_at_once :
    ∃ s₀, start 2 1 0 ([0, 1].flatMap fun core => List.replicate recordSize 0 ++ [core]) = .ok s₀ ∧
      s₀.device.stop.1.settle.Finished ∧
      Inevitable (fun a b => ∃ act, Step a act b) (·.device.Finished)
        { s₀.withDevice { s₀.device with stopped := true } with todo := some Device.Halt.all } := by
  obtain ⟨s₀, hstart, hquiet⟩ := stops_quietly 2 1 (by decide) (by decide) (by decide) (by decide) 0
    ([0, 1].flatMap fun core => List.replicate recordSize 0 ++ [core]) (by decide +kernel)
    (by decide +kernel)
  have htodo : s₀.todo = none := by
    cases hstart
    rfl
  refine ⟨s₀, hstart, (hquiet [] s₀ .nil).settles htodo, ?_⟩
  exact (hquiet _ _ (Path.nil.snoc (.begin htodo))).stop_ends rfl

end Shutdown

end Cosim

import Cosim.Proofs.Progress
import Cosim.Proofs.Verdict
import Cosim.Supervisor

/-!
# Supervised runs, step by step

A pipeline under supervision: the hardware that delivers a stream in pieces of any
size, the two workers of the device, the loop that steps the session, and the
caller that waits for the end of the run and then stops the device.  All of them
take their steps in any order.

* `Supervision` is the state of all of them, and `Supervision.Move` lists their
  steps.  A step of the session is taken apart, so that the workers can move
  between a take, the copy, the drain and the check.
* `Supervision.Running` says where everybody stands before the run has ended: the
  loop is some steps into the verdict on the blocks of the stream.
  `Supervision.Ended` says the same after the end, which is that verdict.
* `Inv.move` is the step lemma and `Inv.reach` the run lemma.
-/

namespace Cosim

/-- Where the loop stands that steps the session.  `left` counts the steps of the
batch that are wanted after the one at hand. -/
inductive Loop where
  /-- Before the next batch. -/
  | head
  /-- Before the next step of a batch. -/
  | batch (left : Nat)
  /-- Inside a step, before it looks at the status. -/
  | entering (left : Nat)
  /-- Waiting for a snapshot. -/
  | taking (left : Nat)
  /-- About to copy the snapshot that was taken. -/
  | copying (t : Ticket) (left : Nat)
  /-- About to forget the records of the snapshot. -/
  | draining (t : Ticket) (copy : Snapshot) (left : Nat)
  /-- About to give the snapshot back. -/
  | returning (t : Ticket) (copy : Snapshot) (left : Nat)
  /-- About to take the copy in. -/
  | checking (copy : Snapshot) (left : Nat)
  /-- About to draw the consequences. -/
  | judging (result : Except Error Bool) (left : Nat)
  /-- About to show the statistics. -/
  | finishing
  /-- Done. -/
  | gone

/-- Where the caller stands that waits for the end of the run. -/
inductive Caller where
  | waiting
  /-- It has been told how the run ended. -/
  | woken (outcome : Outcome)
  /-- It has cancelled the run's context and waits for the loop. -/
  | joining (outcome : Outcome)
  /-- It stops the device; these actions are still to be taken. -/
  | stopping (outcome : Outcome) (todo : List Device.Halt)
  /-- It has drawn up the account. -/
  | done (result : RunResult)

/-- The caller has cancelled the context of workers and loop. -/
def Caller.cancelled : Caller → Bool
  | .waiting | .woken _ => false
  | .joining _ | .stopping _ _ | .done _ => true

/-- A pipeline with the hardware that feeds it, the loop that steps it and the
caller that waits for it. -/
structure Supervision where
  session : Session Line
  /-- The bytes that the hardware has not delivered yet. -/
  pending : List UInt8 := []
  loop : Loop := .head
  caller : Caller := .waiting

namespace Supervision

/-- The device. -/
def device (s : Supervision) : Device := s.session.oracle.device

/-- The checker. -/
def checker (s : Supervision) : Checker := s.session.oracle.checker

/-- Change the device. -/
def withDevice (s : Supervision) (d : Device) : Supervision :=
  { s with session := { s.session with oracle := { s.session.oracle with device := d } } }

/-- Change the exchange, and move on with the loop. -/
def withExchange (s : Supervision) (x : Exchange) (loop : Loop) : Supervision :=
  { s.withDevice { s.device with exchange := x } with loop }

/-- Take in a snapshot. -/
def accept (s : Supervision) (copy : Snapshot) (left : Nat) : Supervision :=
  let (checker, differs, notes) := s.checker.accept copy
  { s with
    session := { s.session with oracle := { s.session.oracle with checker } }.log notes
    loop := .judging (.ok differs) left }

/-- Draw the consequences of an answer. -/
def conclude (s : Supervision) (result : Except Error Bool) (left : Nat) : Supervision :=
  { s with session := s.session.conclude result s.caller.cancelled, loop := .batch left }

/-- The loop may take another step. -/
def goesOn (s : Supervision) : Bool := s.session.run.isRunning && !s.caller.cancelled

/-- A pipeline whose workers have just been started. -/
def start (p : Pipeline) (pending : List UInt8) : Supervision where
  session := (p.withDevice p.device.start).session
  pending

/-- What the session is told when a take fails. -/
def complaint (c : Checker) : Error → Error
  | .exchangeSealed => .streamEnded c.steps
  | e => e

/-- One step of the hardware, of a worker, of the loop, or of the caller. -/
inductive Move (batch : Nat) : Supervision → Supervision → Prop where
  | feed {s piece rest} (hpending : s.pending = piece ++ rest) (hpiece : piece ≠ []) :
      Move batch s
        { s.withDevice { s.device with source := s.device.source.feed piece } with pending := rest }
  | feedOver {s} (hpending : s.pending = []) (htail : s.device.source.tail = .opened) :
      Move batch s (s.withDevice { s.device with source := s.device.source.finish .finished })
  | reader {s d} (hnext : d ∈ s.device.readerNext) : Move batch s (s.withDevice d)
  | assembler {s d} (hnext : d ∈ s.device.assemblerNext) : Move batch s (s.withDevice d)
  | report {s before e later} (hfailures : s.device.failures = before ++ e :: later) :
      Move batch s
        { s with
          session := (s.withDevice { s.device with failures := before ++ later }).session.abort e }
  | again {s} (hloop : s.loop = .head) (hgoes : s.goesOn = true) :
      Move batch s { s with loop := .batch batch }
  | leave {s} (hloop : s.loop = .head) (hgoes : s.goesOn = false) :
      Move batch s { s with loop := .finishing }
  | enter {s left} (hloop : s.loop = .batch (left + 1)) (hgoes : s.goesOn = true) :
      Move batch s { s with loop := .entering left }
  | batchOver {s left} (hloop : s.loop = .batch left) (hover : left = 0 ∨ s.goesOn = false) :
      Move batch s { s with loop := .head }
  | begin {s left} (hloop : s.loop = .entering left) (hrun : s.session.run.isRunning = true) :
      Move batch s { s with session := s.session.launch, loop := .taking left }
  | late {s left} (hloop : s.loop = .entering left) (hrun : s.session.run.isRunning = false) :
      Move batch s { s with session := s.session.dump, loop := .batch left }
  | take {s left t x} (hloop : s.loop = .taking left)
      (htake : s.device.exchange.take = some (.ok t, x)) :
      Move batch s (s.withExchange x (.copying t left))
  | takeFailed {s left e x} (hloop : s.loop = .taking left)
      (htake : s.device.exchange.take = some (.error e, x)) :
      Move batch s (s.withExchange x (.judging (.error (complaint s.checker e)) left))
  | giveUp {s left} (hloop : s.loop = .taking left)
      (hcancelled : (s.caller.cancelled || s.session.run.halted) = true) :
      Move batch s { s with loop := .judging (.error .cancelled) left }
  | copy {s left t} (hloop : s.loop = .copying t left) :
      Move batch s { s with loop := .draining t (s.device.exchange.snapshot t) left }
  | reset {s left t copy} (hloop : s.loop = .draining t copy left) :
      Move batch s (s.withExchange (s.device.exchange.reset t) (.returning t copy left))
  | giveBack {s left t copy x} (hloop : s.loop = .returning t copy left)
      (hback : s.device.exchange.giveBack t = .done x) :
      Move batch s (s.withExchange x (.checking copy left))
  | check {s left copy} (hloop : s.loop = .checking copy left) :
      Move batch s (s.accept copy left)
  | conclude {s left result} (hloop : s.loop = .judging result left) :
      Move batch s (s.conclude result left)
  | finish {s} (hloop : s.loop = .finishing) :
      Move batch s { s with session := s.session.finish, loop := .gone }
  | wake {s outcome} (hcaller : s.caller = .waiting)
      (hwait : (outcome, none) ∈ s.session.run.waitOutcomes false) :
      Move batch s { s with caller := .woken outcome }
  | cancel {s outcome} (hcaller : s.caller = .woken outcome) :
      Move batch s { s.withDevice s.device.abandon with caller := .joining outcome }
  | join {s outcome} (hcaller : s.caller = .joining outcome) (hloop : s.loop = .gone) :
      Move batch s
        { s.withDevice { s.device with stopped := true } with
          caller := .stopping outcome [.lower, .closeSource, .closePool, .cancel] }
  | halt {s outcome step todo} (hcaller : s.caller = .stopping outcome (step :: todo)) :
      Move batch s { s.withDevice (s.device.halt step) with caller := .stopping outcome todo }
  | collect {s outcome} (hcaller : s.caller = .stopping outcome [])
      (hreader : s.device.readerExit = .done) (hassembler : s.device.assemblerExit = .done)
      (hfailures : s.device.failures = []) :
      Move batch s
        { s with
          caller := .done { Supervisor.account { session := s.session } with outcome } }

/-- Any number of steps, in any order. -/
abbrev Reach (batch : Nat) : Supervision → Supervision → Prop := Relation.ReflTransGen (Move batch)

/-- Nobody can take a step. -/
def Stuck (batch : Nat) (s : Supervision) : Prop := ∀ s', ¬ Move batch s s'

end Supervision

/-! ## The invariant -/

namespace Loop

/-- What the loop does with the snapshot of the exchange. -/
def taker : Loop → Taker
  | .copying t _ | .draining t _ _ => .reading t
  | .returning t _ _ => .returning t
  | _ => .idle

/-- The number of snapshots taken whose consequences have not been drawn. -/
def ahead : Loop → Nat
  | .copying _ _ | .draining _ _ _ | .returning _ _ _ | .checking _ _ | .judging (.ok _) _ => 1
  | _ => 0

/-- The copy that the loop has made. -/
def copied : Loop → Option Snapshot
  | .draining _ copy _ | .returning _ copy _ | .checking copy _ => some copy
  | _ => none

/-- The loop is between steps, or has left. -/
def atRest : Loop → Bool
  | .head | .batch _ | .finishing | .gone => true
  | _ => false

/-- The loop has taken nothing that it has not dealt with. -/
def isPlain : Loop → Bool
  | .head | .batch _ | .entering _ | .taking _ => true
  | _ => false

/-- The loop has left. -/
def hasLeft : Loop → Bool
  | .finishing | .gone => true
  | _ => false

theorem of_isPlain {loop : Loop} (hplain : loop.isPlain = true) :
    loop.taker = .idle ∧ loop.ahead = 0 ∧ loop.copied = none ∧ loop.hasLeft = false ∧
      ∀ result left, loop ≠ .judging result left := by
  cases loop <;> simp_all [isPlain, taker, ahead, copied, hasLeft]

end Loop

/-- What a run is about: the golden records of each core, the instruction ceiling,
and a well-formed stream. -/
structure Job where
  cores : Nat
  golden : Nat → List CoreState
  limit : UInt64
  stream : List UInt8
  wellFormed : Stream.WellFormed cores stream

namespace Job

/-- The states that the complete blocks of the stream report. -/
def blocks (job : Job) : List (List CoreState) :=
  Stream.blocks job.cores (Stream.records job.stream)

/-- The verdict on these blocks. -/
def verdict (job : Job) : Verdict := Verdict.ofBlocks job.cores job.golden job.limit job.blocks

end Job

/-- The account says what the verdict says. -/
structure Verdict.Describes (v : Verdict) (result : RunResult) : Prop where
  outcome_eq : result.outcome = v.outcome
  info_eq : result.info = v.info
  final_eq : result.final = v.final

namespace Supervision

/-- The workers keep their promises on the way from the job's stream to the loop. -/
structure Serves (job : Job) (s : Supervision) (h : Handover) : Prop where
  sound : s.device.Sound job.cores job.stream s.pending h
  started : s.device.started = true

/-- The run goes on: `k` steps of the verdict have been taken, and the loop may be
inside the next one. -/
structure Running (job : Job) (s : Supervision) (h : Handover) (k : Nat) (marks : Verdict.Marks)
    (last : List CoreState) : Prop where
  caller_eq : s.caller = .waiting
  calm : s.device.Calm
  run_at : s.session.run.At job.limit k marks
  marks_length : marks.length = job.cores
  last_length : last.length = job.cores
  verdict_eq : Verdict.judge job.golden job.limit k marks last (job.blocks.drop k) = job.verdict
  taker_eq : h.taker = s.loop.taker
  taken_length : h.taken.length = k + s.loop.ahead
  copied_eq : ∀ copy, s.loop.copied = some copy → h.taken[k]? = some copy
  checker_at : (∀ differs left, s.loop ≠ .judging (.ok differs) left) →
    s.checker.At job.golden k last
  answered : ∀ differs left, s.loop = .judging (.ok differs) left →
    ∃ states, job.blocks[k]? = some states ∧ states.length = job.cores ∧
      s.checker.At job.golden (k + 1) states ∧ differs = Verdict.mismatch job.golden k 0 states
  failed : ∀ e left, s.loop = .judging (.error e) left →
    e = .streamEnded (.ofNat k) ∧ job.blocks.length ≤ k
  stays : s.loop.hasLeft = false

/-- What the caller knows after the end of the run, and what it has done. -/
def CallerKnows (v : Verdict) (s : Supervision) : Caller → Prop
  | .waiting => True
  | .woken outcome => outcome = v.outcome
  | .joining outcome => outcome = v.outcome ∧ s.device.signals.cancelled = true
  | .stopping outcome todo =>
    outcome = v.outcome ∧ s.device.signals.cancelled = true ∧
      (Device.Halt.closeSource ∈ todo ∨ s.device.source.isClosed = true) ∧ s.loop = .gone
  | .done result => v.Describes result

/-- The run has ended, with the verdict. -/
structure Ended (job : Job) (s : Supervision) : Prop where
  run_ended : s.session.run.Ended job.verdict
  rests : s.loop.atRest = true
  caller_knows : CallerKnows job.verdict s s.caller

/-- Where everybody stands. -/
def Inv (job : Job) (s : Supervision) : Prop :=
  ∃ h, s.Serves job h ∧ ((∃ k marks last, s.Running job h k marks last) ∨ s.Ended job)

end Supervision

/-! ## What the session hears from the checker -/

namespace Line

variable {l : Line} {golden : Nat → List CoreState} {k : Nat} {states : List CoreState}

theorem event_eq (hc : l.checker.At golden k states) (i : Nat) (hi : i < states.length) :
    Oracle.event l i = states[i].trap := by
  have hcores := hc.cores_eq
  have hsize : l.checker.cores.size = states.length := by rw [← hcores, Array.length_toList]
  have hindex : Fault.checkIndex i l.checker.cores.size = .ok i :=
    Fault.checkIndex_of_lt (by omega)
  have hget : l.checker.cores.getD i {} = states[i] := by
    simp only [Array.getD_eq_getD_getElem?, ← Array.getElem?_toList, hcores,
      List.getElem?_eq_getElem hi, Option.getD_some]
  simp only [Oracle.event, Checker.event, hindex, bind, Except.bind, pure, Except.pure,
    Except.toOption, Option.getD_some, hget]

theorem trapState_eq (hc : l.checker.At golden k states) :
    Oracle.trapState l =
      match states.find? (·.trap.hasTrap) with
      | some state => (state.trap.code.toNat : Int)
      | none => trapRunning := by
  simp only [Oracle.trapState, Checker.trapState, hc.cores_eq]
  rfl

end Line

namespace Supervision

variable {job : Job} {batch : Nat} {s s' : Supervision} {d : Device} {h h' : Handover} {k : Nat}
  {marks : Verdict.Marks} {last : List CoreState}

/-! ## Steps before the end -/

theorem Serves.withDevice (hs : s.Serves job h) (hd : d.Sound job.cores job.stream s.pending h')
    (hk : s.device.Keeps d) : (s.withDevice d).Serves job h' :=
  ⟨hd, hk.started_eq.trans hs.started⟩

theorem Serves.of_device (hs : s.Serves job h) (hdevice : s'.device = s.device)
    (hpending : s'.pending = s.pending) : s'.Serves job h :=
  ⟨hdevice ▸ hpending ▸ hs.sound, hdevice ▸ hs.started⟩

theorem Serves.accept (hs : s.Serves job h) (copy : Snapshot) (left : Nat) :
    (s.accept copy left).Serves job h :=
  hs.of_device rfl rfl

theorem Serves.feed (hs : s.Serves job h) {piece rest : List UInt8}
    (hpending : s.pending = piece ++ rest) (hpiece : piece ≠ []) :
    { s.withDevice { s.device with source := s.device.source.feed piece } with
      pending := rest }.Serves job h := by
  have hd := hs.sound
  rw [hpending] at hd
  exact ⟨hd.feed hpiece, hs.started⟩

theorem Serves.feedOver (hs : s.Serves job h) (hpending : s.pending = []) :
    (s.withDevice { s.device with source := s.device.source.finish .finished }).Serves job h := by
  have hd := hs.sound
  rw [hpending] at hd
  have hd' : { s.device with source := s.device.source.finish .finished }.Sound job.cores job.stream
      s.pending h := by
    rw [hpending]
    exact hd.finish
  exact ⟨hd', hs.started⟩

/-- Workers that nobody has stopped have nothing to complain about. -/
theorem Serves.no_failure (hs : s.Serves job h) (hcalm : s.device.Calm) :
    s.device.failures = [] := by
  refine List.eq_nil_iff_forall_not_mem.mpr fun e he => ?_
  rcases hs.sound.failures e he with hreader | hassembler
  · have := hs.sound.reader_returned hcalm hreader
    simp [job.wellFormed.whole] at this
  · obtain ⟨hrefusal, -⟩ := hs.sound.assembler_returned hcalm hassembler
    rw [Stream.refusal_eq_none fun _ _ => job.wellFormed.isBad] at hrefusal
    cases hrefusal

namespace Running

/-- The workers leave run and loop alone. -/
theorem withDevice (hr : s.Running job h k marks last) (hcalm : d.Calm)
    (htaker : h'.taker = h.taker) (htakes : h'.takes = h.takes) :
    (s.withDevice d).Running job h' k marks last := by
  have htaken : h'.taken = h.taken := by simp only [Handover.taken, htakes]
  exact
    { hr with
      calm := hcalm
      taker_eq := htaker.trans hr.taker_eq
      taken_length := htaken ▸ hr.taken_length
      copied_eq := htaken ▸ hr.copied_eq }

/-- The loop moves on inside a step that has no answer yet: all that changes is what it
has taken and copied. -/
theorem moveOn (hr : s.Running job h k marks last) (hsession : s'.session.run = s.session.run)
    (hchecker : s'.checker = s.checker) (hcaller : s'.caller = s.caller) (hcalm : s'.device.Calm)
    (hold : ∀ result left, s.loop ≠ .judging result left)
    (hnew : ∀ result left, s'.loop ≠ .judging result left) (hstays : s'.loop.hasLeft = false)
    (htaker : h'.taker = s'.loop.taker) (htaken : h'.taken.length = k + s'.loop.ahead)
    (hcopied : ∀ copy, s'.loop.copied = some copy → h'.taken[k]? = some copy) :
    s'.Running job h' k marks last where
  caller_eq := hcaller.trans hr.caller_eq
  calm := hcalm
  run_at := hsession ▸ hr.run_at
  marks_length := hr.marks_length
  last_length := hr.last_length
  verdict_eq := hr.verdict_eq
  taker_eq := htaker
  taken_length := htaken
  copied_eq := hcopied
  checker_at := fun _ => hchecker ▸ hr.checker_at fun differs left => hold (.ok differs) left
  answered := fun _ _ hloop => absurd hloop (hnew _ _)
  failed := fun _ _ hloop => absurd hloop (hnew _ _)
  stays := hstays

/-- The loop moves on without a take. -/
theorem goto (hr : s.Running job h k marks last) {loop : Loop} (hold : s.loop.isPlain = true)
    (hnew : loop.isPlain = true) : { s with loop }.Running job h k marks last := by
  obtain ⟨htaker, hahead, -, -, hnot⟩ := Loop.of_isPlain hold
  obtain ⟨htaker', hahead', hcopied', hleft', hnot'⟩ := Loop.of_isPlain hnew
  refine hr.moveOn rfl rfl rfl hr.calm hnot hnot' hleft' ?_ ?_ ?_
  · rw [hr.taker_eq, htaker, htaker']
  · rw [hr.taken_length, hahead, hahead']
  · simp [hcopied']

theorem goesOn (hr : s.Running job h k marks last) : s.goesOn = true := by
  simp [Supervision.goesOn, hr.run_at.isRunning, hr.caller_eq, Caller.cancelled]

theorem take (hr : s.Running job h k marks last) (hs : s.Serves job h) {left : Nat} {t : Ticket}
    {x : Exchange} (hloop : s.loop = .taking left)
    (htake : s.device.exchange.take = some (.ok t, x)) :
    ∃ h', (s.withExchange x (.copying t left)).Serves job h' ∧
      (s.withExchange x (.copying t left)).Running job h' k marks last := by
  have hidle : h.taker = .idle := by rw [hr.taker_eq, hloop]; rfl
  refine ⟨_, ⟨hs.sound.take hidle htake, hs.started⟩, ?_⟩
  have hlength := hr.taken_length
  rw [hloop] at hlength
  refine hr.moveOn rfl rfl rfl hr.calm (by simp [hloop]) (by simp [withExchange]) rfl rfl ?_ ?_
  · simpa [Handover.taken, Except.toOption, Loop.ahead, withExchange] using hlength
  · simp [withExchange, Loop.copied]

/-- A take fails only when every block has been taken. -/
theorem takeFailed (hr : s.Running job h k marks last) (hs : s.Serves job h) {left : Nat}
    {e : Error} {x : Exchange} (hloop : s.loop = .taking left)
    (htake : s.device.exchange.take = some (.error e, x)) :
    ∃ h', (s.withExchange x (.judging (.error (complaint s.checker e)) left)).Serves job h' ∧
      (s.withExchange x (.judging (.error (complaint s.checker e)) left)).Running job h' k marks
        last := by
  have hidle : h.taker = .idle := by rw [hr.taker_eq, hloop]; rfl
  have hd := hs.sound
  have hc := hr.checker_at (by simp [hloop])
  have hlength := hr.taken_length
  simp only [hloop, Loop.ahead, Nat.add_zero] at hlength
  refine ⟨_, ⟨hd.takeFailed hidle htake, hs.started⟩, ?_⟩
  rw [← hd.exchange_eq] at htake
  obtain ⟨rfl, rfl, hfull, hsealed⟩ := hd.inv.take_error htake
  have hall : job.blocks.length ≤ k := by
    rw [hd.exchange_eq] at hsealed
    obtain ⟨failure, hphase⟩ := hd.assembler_over (hd.exchange_sealed.mp hsealed)
    obtain ⟨-, hpublished, -⟩ := hd.assembler_returned hr.calm hphase
    have horder := congrArg List.length hd.inv.order
    simp only [Handover.pending, hfull, Option.map_none, Option.toList_none, List.append_nil,
      hpublished, job.wellFormed.firstBad_eq, hlength] at horder
    rw [Job.blocks, Stream.length_blocks, horder]
  exact
    { hr with
      taker_eq := hidle
      taken_length := by
        simpa [Handover.taken, List.filterMap_cons, Except.toOption, Loop.ahead, withExchange]
          using hlength
      copied_eq := by simp [withExchange, Loop.copied]
      checker_at := fun _ => hc
      answered := by simp [withExchange]
      failed := by
        intro e left hjudging
        simp only [withExchange, Loop.judging.injEq, Except.error.injEq] at hjudging
        rw [← hjudging.1, complaint, hc.steps_eq]
        exact ⟨rfl, hall⟩
      stays := rfl }

/-- The copy is what was taken. -/
theorem copy (hr : s.Running job h k marks last) (hs : s.Serves job h) {left : Nat} {t : Ticket}
    (hloop : s.loop = .copying t left) :
    { s with loop := .draining t (s.device.exchange.snapshot t) left }.Running job h k marks
      last := by
  have htaker := hr.taker_eq
  have hlength := hr.taken_length
  rw [hloop] at htaker hlength
  obtain ⟨-, -, hlast⟩ := hs.sound.inv.safe.reading_whole t htaker
  rw [List.getLast?_eq_getElem?, hlength, hs.sound.exchange_eq] at hlast
  refine hr.moveOn rfl rfl rfl hr.calm (by simp [hloop]) (by simp) rfl htaker hlength ?_
  intro copy hcopy
  cases hcopy
  exact hlast

theorem reset (hr : s.Running job h k marks last) (hs : s.Serves job h) {left : Nat} {t : Ticket}
    {copy : Snapshot} (hloop : s.loop = .draining t copy left) :
    ∃ h', (s.withExchange (s.device.exchange.reset t) (.returning t copy left)).Serves job h' ∧
      (s.withExchange (s.device.exchange.reset t) (.returning t copy left)).Running job h' k marks
        last := by
  have htaker := hr.taker_eq
  have hlength := hr.taken_length
  have hcopied := hr.copied_eq
  rw [hloop] at htaker hlength hcopied
  refine ⟨_, ⟨hs.sound.reset htaker, hs.started⟩, ?_⟩
  exact hr.moveOn rfl rfl rfl hr.calm (by simp [hloop]) (by simp [withExchange]) rfl rfl hlength
    hcopied

theorem giveBack (hr : s.Running job h k marks last) (hs : s.Serves job h) {left : Nat} {t : Ticket}
    {copy : Snapshot} {x : Exchange} (hloop : s.loop = .returning t copy left)
    (hback : s.device.exchange.giveBack t = .done x) :
    ∃ h', (s.withExchange x (.checking copy left)).Serves job h' ∧
      (s.withExchange x (.checking copy left)).Running job h' k marks last := by
  have htaker := hr.taker_eq
  have hlength := hr.taken_length
  have hcopied := hr.copied_eq
  rw [hloop] at htaker hlength hcopied
  refine ⟨_, ⟨hs.sound.giveBack htaker hback, hs.started⟩, ?_⟩
  exact hr.moveOn rfl rfl rfl hr.calm (by simp [hloop]) (by simp [withExchange]) rfl rfl hlength
    hcopied

/-- The copy that the checker takes in has the states of the next block. -/
theorem check (hr : s.Running job h k marks last) (hs : s.Serves job h) {left : Nat}
    {copy : Snapshot} (hloop : s.loop = .checking copy left) :
    (s.accept copy left).Running job h k marks last := by
  have htaker := hr.taker_eq
  have hlength := hr.taken_length
  have hcopied := hr.copied_eq copy (by rw [hloop]; rfl)
  rw [hloop] at htaker hlength
  have hpublished := hs.sound.inv.published_of_taken hcopied
  obtain ⟨-, hholds, -⟩ := hs.sound.published hpublished
  have hblock : job.blocks[k]? = some copy.records := by
    rw [hholds.records_eq]
    refine Stream.getElem?_blocks ?_
    have hlt := (List.getElem?_eq_some_iff.mp hpublished).1
    have hle := hs.sound.published_le
    rw [job.wellFormed.firstBad_eq] at hle
    omega
  have hcores : copy.records.length = job.cores := by
    rw [hholds.records_eq, Stream.length_states]
  obtain ⟨hc, hdiffers⟩ := (hr.checker_at (by simp [hloop])).accept
    (hcores.trans hr.last_length.symm)
  exact
    { hr with
      taker_eq := htaker
      taken_length := hlength
      copied_eq := by simp [Supervision.accept, Loop.copied]
      checker_at := fun hnot => absurd rfl (hnot _ left)
      answered := by
        intro differs left' hjudging
        simp only [Supervision.accept, Loop.judging.injEq, Except.ok.injEq] at hjudging
        exact ⟨copy.records, hblock, hcores, hc, hjudging.1.symm.trans hdiffers⟩
      failed := by simp [Supervision.accept]
      stays := rfl }

/-- The end of the stream is the end of the verdict. -/
theorem conclude_error (hr : s.Running job h k marks last) {left : Nat} {e : Error}
    (hloop : s.loop = .judging (.error e) left) :
    (s.conclude (.error e) left).session.oracle = s.session.oracle ∧
      (s.conclude (.error e) left).Ended job := by
  obtain ⟨rfl, hall⟩ := hr.failed e left hloop
  have hc := hr.checker_at (by simp [hloop])
  have hverdict := hr.verdict_eq
  rw [List.drop_eq_nil_of_le hall] at hverdict
  obtain ⟨horacle, hended⟩ := Session.conclude_error (fun _ _ => rfl) job.golden hr.run_at
    (hr.last_length.trans hr.marks_length.symm) (Line.event_eq hc)
  rw [hverdict] at hended
  simp only [Supervision.conclude, hr.caller_eq, Caller.cancelled]
  exact ⟨horacle, hended, rfl, trivial⟩

/-- The answer of the checker is one step of the verdict, or its end. -/
theorem conclude_answer (hr : s.Running job h k marks last) {left : Nat} {differs : Bool}
    (hloop : s.loop = .judging (.ok differs) left) :
    (s.conclude (.ok differs) left).session.oracle = s.session.oracle ∧
      ((∃ marks' last', (s.conclude (.ok differs) left).Running job h (k + 1) marks' last') ∨
        (s.conclude (.ok differs) left).Ended job) := by
  have htaker := hr.taker_eq
  have hlength := hr.taken_length
  rw [hloop] at htaker hlength
  obtain ⟨states, hblock, hcores, hc, rfl⟩ := hr.answered differs left hloop
  obtain ⟨hlt, hstates⟩ := List.getElem?_eq_some_iff.mp hblock
  have hverdict := hr.verdict_eq
  rw [List.drop_eq_getElem_cons hlt, hstates] at hverdict
  obtain ⟨horacle, hnext⟩ := Session.conclude_answer (fun _ _ => rfl) job.golden last hr.run_at
    (hcores.trans hr.marks_length.symm) (Line.event_eq hc) (Line.trapState_eq hc)
    (job.blocks.drop (k + 1)) false
  rw [hverdict] at hnext
  simp only [Supervision.conclude, hr.caller_eq, Caller.cancelled]
  refine ⟨horacle, ?_⟩
  rcases hnext with hended | ⟨marks', hmarks, hrun, hjudge⟩
  · exact .inr ⟨hended, rfl, trivial⟩
  · refine .inl ⟨marks', states, ?_⟩
    exact
      { caller_eq := rfl
        calm := by simpa only [Supervision.device, horacle] using hr.calm
        run_at := hrun
        marks_length := hmarks.trans hr.marks_length
        last_length := hcores
        verdict_eq := hjudge.symm
        taker_eq := htaker
        taken_length := hlength
        copied_eq := by simp [Loop.copied]
        checker_at := fun _ => by simpa only [Supervision.checker, horacle] using hc
        answered := by simp
        failed := by simp
        stays := rfl }

/-- Before the end, whoever moves keeps the invariant. -/
theorem move (hr : s.Running job h k marks last) (hs : s.Serves job h) (hmove : Move batch s s') :
    s'.Inv job := by
  have hcalm := hr.calm
  cases hmove with
  | feed hpending hpiece =>
    refine ⟨h, hs.feed hpending hpiece, .inl ⟨k, marks, last, ?_⟩⟩
    exact { hr with
      calm := ⟨hcalm.running, hcalm.cancelled, hcalm.source_open, hcalm.pool_open⟩ }
  | feedOver hpending _ =>
    exact ⟨h, hs.feedOver hpending, .inl ⟨k, marks, last, hr.withDevice
      ⟨hcalm.running, hcalm.cancelled, hcalm.source_open, hcalm.pool_open⟩ rfl rfl⟩⟩
  | reader hnext =>
    obtain ⟨hd, hk⟩ := hs.sound.readerNext hnext
    exact ⟨h, hs.withDevice hd hk,
      .inl ⟨k, marks, last, hr.withDevice (hk.calm.mpr hr.calm) rfl rfl⟩⟩
  | assembler hnext =>
    obtain ⟨h', -, htaker, htakes, hd, hk⟩ := hs.sound.assemblerNext hnext
    exact ⟨h', hs.withDevice hd hk,
      .inl ⟨k, marks, last, hr.withDevice (hk.calm.mpr hr.calm) htaker htakes⟩⟩
  | report hfailures =>
    simp [hs.no_failure hr.calm] at hfailures
  | leave _ hgoes => simp [hr.goesOn] at hgoes
  | again hloop _ | enter hloop _ | batchOver hloop _ | begin hloop _ =>
    exact ⟨h, hs.of_device rfl rfl,
      .inl ⟨k, marks, last, hr.goto (by rw [hloop]; rfl) rfl⟩⟩
  | late _ hrun => simp [hr.run_at.isRunning] at hrun
  | take hloop htake =>
    obtain ⟨h', hs', hr'⟩ := hr.take hs hloop htake
    exact ⟨h', hs', .inl ⟨k, marks, last, hr'⟩⟩
  | takeFailed hloop htake =>
    obtain ⟨h', hs', hr'⟩ := hr.takeFailed hs hloop htake
    exact ⟨h', hs', .inl ⟨k, marks, last, hr'⟩⟩
  | giveUp _ hcancelled =>
    simp [hr.caller_eq, Caller.cancelled, hr.run_at.halted_eq] at hcancelled
  | copy hloop =>
    exact ⟨h, hs.of_device rfl rfl, .inl ⟨k, marks, last, hr.copy hs hloop⟩⟩
  | reset hloop =>
    obtain ⟨h', hs', hr'⟩ := hr.reset hs hloop
    exact ⟨h', hs', .inl ⟨k, marks, last, hr'⟩⟩
  | giveBack hloop hback =>
    obtain ⟨h', hs', hr'⟩ := hr.giveBack hs hloop hback
    exact ⟨h', hs', .inl ⟨k, marks, last, hr'⟩⟩
  | check hloop =>
    exact ⟨h, hs.accept _ _, .inl ⟨k, marks, last, hr.check hs hloop⟩⟩
  | @conclude left result hloop =>
    cases result with
    | error e =>
      obtain ⟨horacle, hended⟩ := hr.conclude_error hloop
      exact ⟨h, hs.of_device (congrArg Line.device horacle) rfl, .inr hended⟩
    | ok differs =>
      obtain ⟨horacle, ⟨marks', last', hrunning⟩ | hended⟩ := hr.conclude_answer hloop
      · exact ⟨h, hs.of_device (congrArg Line.device horacle) rfl,
          .inl ⟨k + 1, marks', last', hrunning⟩⟩
      · exact ⟨h, hs.of_device (congrArg Line.device horacle) rfl, .inr hended⟩
  | finish hloop =>
    have hstays := hr.stays
    simp [hloop, Loop.hasLeft] at hstays
  | wake _ hwait => simp [Run.waitOutcomes, hr.run_at.halted_eq] at hwait
  | cancel hcaller | join hcaller _ | halt hcaller | collect hcaller _ _ _ =>
    simp [hr.caller_eq] at hcaller

end Running

/-! ## Steps after the end -/

/-- Nothing changes a session whose run has ended and has shown its statistics. -/
theorem session_frozen {session : Session Line} {v : Verdict} (he : session.run.Ended v) :
    session.dump = session ∧ session.finish = session ∧ ∀ e, session.abort e = session := by
  have hover : session.run.outcome.status ≠ .running := by
    rw [ne_eq, ← Session.isRunning_iff, he.isRunning_eq]
    simp
  refine ⟨?_, ?_, ?_⟩
  · simp [Session.dump, he.dumped_eq]
  · simp [Session.finish, Session.dump, he.isRunning_eq, he.dumped_eq]
  · intro e
    simp [Session.abort, Session.transition, hover]

/-- The caller goes by the flags of the device. -/
theorem CallerKnows.withDevice {v : Verdict} (hc : CallerKnows v s s.caller)
    (hsignals : d.signals = s.device.signals)
    (hclosed : d.source.isClosed = s.device.source.isClosed) :
    CallerKnows v (s.withDevice d) s.caller := by
  generalize s.caller = caller at hc
  cases caller with
  | waiting | woken outcome | done result => exact hc
  | joining outcome => exact ⟨hc.1, hsignals ▸ hc.2⟩
  | stopping outcome todo => exact ⟨hc.1, hsignals ▸ hc.2.1, hclosed ▸ hc.2.2.1, hc.2.2.2⟩

/-- The caller goes by the loop only once that is gone. -/
theorem CallerKnows.goto {v : Verdict} (hc : CallerKnows v s s.caller) (hloop : s.loop ≠ .gone)
    (loop : Loop) : CallerKnows v { s with loop } s.caller := by
  cases hcaller : s.caller with
  | waiting | woken outcome | joining outcome | done result =>
    rw [hcaller] at hc
    exact hc
  | stopping outcome todo =>
    rw [hcaller] at hc
    exact absurd hc.2.2.2 hloop

namespace Ended

theorem goesOn (he : s.Ended job) : s.goesOn = false := by
  simp [Supervision.goesOn, he.run_ended.isRunning_eq]

/-- The loop leaves. -/
theorem goto (he : s.Ended job) {loop : Loop} (hold : s.loop ≠ .gone) (hnew : loop.atRest = true) :
    { s with loop }.Ended job :=
  ⟨he.run_ended, hnew, he.caller_knows.goto hold loop⟩

theorem withDevice (he : s.Ended job) (hsignals : d.signals = s.device.signals)
    (hclosed : d.source.isClosed = s.device.source.isClosed) : (s.withDevice d).Ended job :=
  ⟨he.run_ended, he.rests, he.caller_knows.withDevice hsignals hclosed⟩

/-- Each action of the caller brings the device closer to its stop. -/
theorem halt (he : s.Ended job) {outcome : Outcome} {step : Device.Halt} {todo : List Device.Halt}
    (hcaller : s.caller = .stopping outcome (step :: todo)) :
    { s.withDevice (s.device.halt step) with caller := .stopping outcome todo }.Ended job := by
  have hc := he.caller_knows
  rw [hcaller] at hc
  obtain ⟨houtcome, hcancelled, hclosed, hgone⟩ := hc
  refine ⟨he.run_ended, he.rests, houtcome, ?_, ?_, hgone⟩
  · show (s.device.halt step).signals.cancelled = true
    cases step <;> simp [Device.halt, hcancelled]
  · show Device.Halt.closeSource ∈ todo ∨ (s.device.halt step).source.isClosed = true
    cases step <;> simp_all [Device.halt, Source.close]

/-- After the end, whoever moves keeps the invariant. -/
theorem move (he : s.Ended job) (hs : s.Serves job h) (hmove : Move batch s s') : s'.Inv job := by
  have hrests := he.rests
  have hc := he.caller_knows
  cases hmove with
  | @feed piece rest hpending hpiece =>
    have he' : (s.withDevice { s.device with source := s.device.source.feed piece }).Ended job :=
      he.withDevice rfl rfl
    exact ⟨h, hs.feed hpending hpiece, .inr ⟨he'.run_ended, he'.rests, he'.caller_knows⟩⟩
  | feedOver hpending _ => exact ⟨h, hs.feedOver hpending, .inr (he.withDevice rfl rfl)⟩
  | reader hnext =>
    obtain ⟨hd, hk⟩ := hs.sound.readerNext hnext
    exact ⟨h, hs.withDevice hd hk, .inr (he.withDevice hk.signals_eq hk.source_closed_eq)⟩
  | assembler hnext =>
    obtain ⟨h', -, -, -, hd, hk⟩ := hs.sound.assemblerNext hnext
    exact ⟨h', hs.withDevice hd hk, .inr (he.withDevice hk.signals_eq hk.source_closed_eq)⟩
  | @report before e later hfailures =>
    have he' : (s.withDevice { s.device with failures := before ++ later }).Ended job :=
      he.withDevice rfl rfl
    obtain ⟨-, -, habort⟩ := session_frozen he'.run_ended
    rw [habort e]
    exact ⟨h, ⟨hs.sound.reported hfailures, hs.started⟩, .inr he'⟩
  | again _ hgoes | enter _ hgoes => simp [he.goesOn] at hgoes
  | leave hloop _ | batchOver hloop _ =>
    exact ⟨h, hs.of_device rfl rfl, .inr (he.goto (by simp [hloop]) rfl)⟩
  | begin hloop _ | late hloop _ | take hloop _ | takeFailed hloop _ | giveUp hloop _ | copy hloop
  | reset hloop | giveBack hloop _ | check hloop | conclude hloop =>
    simp [hloop, Loop.atRest] at hrests
  | finish hloop =>
    rw [(session_frozen he.run_ended).2.1]
    exact ⟨h, hs.of_device rfl rfl, .inr (he.goto (by simp [hloop]) rfl)⟩
  | wake hcaller hwait =>
    simp only [Run.waitOutcomes, he.run_ended.halted_eq, if_true, Bool.false_eq_true, if_false,
      List.append_nil, List.mem_singleton, Prod.mk.injEq, and_true] at hwait
    exact ⟨h, hs.of_device rfl rfl,
      .inr ⟨he.run_ended, hrests, hwait.trans he.run_ended.outcome_eq⟩⟩
  | cancel hcaller =>
    rw [hcaller] at hc
    refine ⟨h, ⟨hs.sound.abandon, hs.started⟩, .inr ⟨he.run_ended, hrests, hc, ?_⟩⟩
    show s.device.abandon.signals.cancelled = true
    simp [Device.abandon, hs.started]
  | join hcaller hloop =>
    rw [hcaller] at hc
    exact ⟨h, ⟨{ hs.sound with }, hs.started⟩,
      .inr ⟨he.run_ended, hrests, hc.1, hc.2, .inl (by simp), hloop⟩⟩
  | @halt outcome step todo hcaller =>
    refine ⟨h, ⟨hs.sound.halt step, ?_⟩, .inr (he.halt hcaller)⟩
    show (s.device.halt step).started = true
    rw [← hs.started]
    cases step <;> rfl
  | collect hcaller _ _ _ =>
    rw [hcaller] at hc
    exact ⟨h, hs.of_device rfl rfl,
      .inr ⟨he.run_ended, hrests, hc.1, he.run_ended.info_eq, he.run_ended.final_eq⟩⟩

end Ended

theorem Inv.move (inv : s.Inv job) (hmove : Move batch s s') : s'.Inv job := by
  obtain ⟨h, hs, ⟨k, marks, last, hr⟩ | he⟩ := inv
  · exact hr.move hs hmove
  · exact he.move hs hmove

theorem Inv.reach (inv : s.Inv job) (hreach : Reach batch s s') : s'.Inv job := by
  induction hreach with
  | refl => exact inv
  | tail _ hmove ih => exact ih.move hmove

end Supervision

end Cosim

import Cosim.Proofs.Progress

/-!
# Delivery

A device, the hardware that feeds it, and a checker that takes snapshots from its
exchange and drains them.  The hardware delivers a stream in pieces of any size;
reader, assembler and checker take their steps in any order, and the checker
goes on until a take fails.

* `Intake` is the state of all of them, with what the checker's takes returned.
* `Intake.Delivered` says what holds at every moment: what was taken are the first
  blocks of the stream, in order, whole, and numbered.
* `Intake.Complete` says how every run ends: the blocks before the first bad
  record have all been taken, and the workers say what ended the stream.
* `Intake.delivered_of_reach` is the main statement.
-/

namespace Cosim

/-- A device between the hardware and a checker. -/
structure Intake where
  device : Device
  /-- The bytes that the hardware has not delivered yet. -/
  pending : List UInt8
  /-- Where the checker stands. -/
  checker : Taker := .idle
  /-- What the checker's calls of take returned. -/
  takes : List (Except Error Snapshot) := []

namespace Intake

/-- A device that has been started, before the first byte. -/
def start (cores depth : Int) (maxRead : Nat) (stream : List UInt8) : Except Fault Intake := do
  let device ← Device.create { maxRead } cores depth
  return { device := device.start, pending := stream }

/-- The snapshots that were taken. -/
def taken (s : Intake) : List Snapshot := s.takes.filterMap Except.toOption

/-- No take has failed. -/
def goesOn (s : Intake) : Bool := s.takes.all Except.isOk

/-- One step of the hardware, of a worker, or of the checker. -/
inductive Move : Intake → Intake → Prop where
  | feed {s piece rest} (hpending : s.pending = piece ++ rest) (hpiece : piece ≠ []) :
      Move s
        { s with
          device := { s.device with source := s.device.source.feed piece }, pending := rest }
  | finish {s} (hpending : s.pending = []) (htail : s.device.source.tail = .opened) :
      Move s { s with device := { s.device with source := s.device.source.finish .finished } }
  | reader {s d} (hnext : d ∈ s.device.readerNext) : Move s { s with device := d }
  | assembler {s d} (hnext : d ∈ s.device.assemblerNext) : Move s { s with device := d }
  | take {s t x} (hchecker : s.checker = .idle) (hgoes : s.goesOn = true)
      (htake : s.device.exchange.take = some (.ok t, x)) :
      Move s
        { s with
          device := { s.device with exchange := x }
          checker := .reading t
          takes := s.takes ++ [.ok (x.snapshot t)] }
  | takeFailed {s e x} (hchecker : s.checker = .idle) (hgoes : s.goesOn = true)
      (htake : s.device.exchange.take = some (.error e, x)) :
      Move s
        { s with device := { s.device with exchange := x }, takes := s.takes ++ [.error e] }
  | reset {s t} (hchecker : s.checker = .reading t) :
      Move s
        { s with
          device := { s.device with exchange := s.device.exchange.reset t }
          checker := .returning t }
  | giveBack {s t x} (hchecker : s.checker = .returning t)
      (hback : s.device.exchange.giveBack t = .done x) :
      Move s { s with device := { s.device with exchange := x }, checker := .idle }

/-- Any number of steps, in any order. -/
abbrev Reach : Intake → Intake → Prop := Relation.ReflTransGen Move

/-- Nobody can take a step. -/
def Stuck (s : Intake) : Prop := ∀ s', ¬ Move s s'

/-! ## The invariant -/

/-- The take that failed, if one did, was the last, and found the exchange sealed
and empty. -/
def Ended (s : Intake) : Prop :=
  s.goesOn = true ∨
    s.takes = s.taken.map Except.ok ++ [.error .exchangeSealed] ∧
      s.device.exchange.isSealed = true ∧ s.device.exchange.full = none

/-- Nobody has stopped the device, and the workers keep their promises to the
checker. -/
def Inv (cores : Nat) (stream : List UInt8) (s : Intake) : Prop :=
  s.device.Calm ∧ s.Ended ∧ ∃ h, s.device.Sound cores stream s.pending h ∧
    h.taker = s.checker ∧ h.takes = s.takes

variable {cores : Nat} {stream : List UInt8} {s s' : Intake}

/-- While the checker goes on, every take has succeeded. -/
theorem takes_of_goesOn (hgoes : s.goesOn = true) : s.takes = s.taken.map Except.ok := by
  unfold goesOn taken at *
  generalize s.takes = takes at hgoes ⊢
  induction takes with
  | nil => rfl
  | cons result rest ih =>
    rw [List.all_cons, Bool.and_eq_true] at hgoes
    cases result with
    | error e => simp [Except.isOk, Except.toBool] at hgoes
    | ok snapshot => simp [Except.toOption, ← ih hgoes.2]

/-- Only a checker that goes on can come to its end. -/
theorem Ended.of_same (hended : s.Ended) (htakes : s'.takes = s.takes)
    (hsealed : s'.device.exchange.isSealed = s.device.exchange.isSealed)
    (hfull : s'.device.exchange.full = s.device.exchange.full) : s'.Ended := by
  simp only [Ended, goesOn, taken, htakes, hsealed, hfull]
  exact hended

/-- The assembler leaves an exchange alone that it has sealed. -/
theorem Ended.assembler {d : Device} {h : Handover} (hended : s.Ended)
    (hd : s.device.Sound cores stream s.pending h) (hnext : d ∈ s.device.assemblerNext) :
    { s with device := d }.Ended := by
  rcases hended with hgoes | ⟨htakes, hsealed, hfull⟩
  · exact .inl hgoes
  · obtain ⟨failure, hphase⟩ := hd.assembler_over (hd.exchange_sealed.mp hsealed)
    have hexchange : d.exchange.isSealed = true ∧ d.exchange.full = none := by
      rcases Device.mem_assemblerNext hnext with ⟨a, p, x, hmem, -⟩ | ⟨-, -, ⟨-, rfl⟩ | ⟨-, rfl⟩⟩
      · simp [Assembler.next, hphase] at hmem
      · exact ⟨rfl, hfull⟩
      · exact ⟨hsealed, hfull⟩
    exact .inr ⟨htakes, hexchange⟩

/-- The workers keep their promises to the checker. -/
def Serving (cores : Nat) (stream : List UInt8) (s : Intake) (h : Handover) : Prop :=
  s.device.Sound cores stream s.pending h ∧ h.taker = s.checker ∧ h.takes = s.takes

variable {h : Handover}

theorem Serving.move (hs : s.Serving cores stream h) (hmove : Move s s') :
    ∃ h', s'.Serving cores stream h' := by
  obtain ⟨hd, hchecker, htakes⟩ := hs
  cases hmove with
  | feed hpending hpiece =>
    rw [hpending] at hd
    exact ⟨h, hd.feed hpiece, hchecker, htakes⟩
  | finish hpending _ =>
    refine ⟨h, ?_, hchecker, htakes⟩
    simp only [hpending] at hd ⊢
    exact hd.finish
  | reader hnext => exact ⟨h, (hd.readerNext hnext).1, hchecker, htakes⟩
  | assembler hnext =>
    obtain ⟨h', -, hsame, htakes', hd', -⟩ := hd.assemblerNext hnext
    exact ⟨h', hd', hsame.trans hchecker, htakes'.trans htakes⟩
  | take hidle _ htake => exact ⟨_, hd.take (hchecker.trans hidle) htake, rfl, by rw [htakes]⟩
  | takeFailed hidle _ htake =>
    exact ⟨_, hd.takeFailed (hchecker.trans hidle) htake, hchecker, by rw [htakes]⟩
  | reset hreading => exact ⟨_, hd.reset (hchecker.trans hreading), rfl, htakes⟩
  | giveBack hreturning hback =>
    exact ⟨_, hd.giveBack (hchecker.trans hreturning) hback, rfl, htakes⟩

/-- None of these steps starts or stops anything. -/
theorem Serving.flags (hs : s.Serving cores stream h) (hmove : Move s s') :
    s'.device.signals = s.device.signals ∧
      s'.device.source.isClosed = s.device.source.isClosed ∧
      s'.device.pool.isClosed = s.device.pool.isClosed ∧ s'.device.started = s.device.started := by
  obtain ⟨hd, -, -⟩ := hs
  cases hmove with
  | reader hnext =>
    obtain ⟨-, hkeeps⟩ := hd.readerNext hnext
    exact ⟨hkeeps.signals_eq, hkeeps.source_closed_eq, hkeeps.pool_closed_eq, hkeeps.started_eq⟩
  | assembler hnext =>
    obtain ⟨-, -, -, -, -, hkeeps⟩ := hd.assemblerNext hnext
    exact ⟨hkeeps.signals_eq, hkeeps.source_closed_eq, hkeeps.pool_closed_eq, hkeeps.started_eq⟩
  | feed | finish | take | takeFailed | reset | giveBack => exact ⟨rfl, rfl, rfl, rfl⟩

theorem Ended.move (hended : s.Ended) (hs : s.Serving cores stream h) (hmove : Move s s') :
    s'.Ended := by
  obtain ⟨hd, hchecker, -⟩ := hs
  cases hmove with
  | feed | finish => exact hended
  | reader hnext =>
    obtain ⟨hexchange, -⟩ := Device.readerNext_frame hnext
    exact hended.of_same rfl (by rw [hexchange]) (by rw [hexchange])
  | assembler hnext => exact hended.assembler hd hnext
  | take hidle hgoes htake =>
    left
    simpa [goesOn, Except.isOk, Except.toBool] using hgoes
  | @takeFailed e x hidle hgoes htake =>
    rw [← hd.exchange_eq] at htake
    obtain ⟨rfl, rfl, hfull, hsealed⟩ := hd.inv.take_error htake
    refine .inr ⟨?_, hsealed, hfull⟩
    have hoks := takes_of_goesOn hgoes
    simpa [taken, List.filterMap_cons, Except.toOption] using hoks
  | reset hreading => exact hended.of_same rfl rfl rfl
  | @giveBack t x hreturning hback =>
    rw [hd.giveBack_eq (hchecker.trans hreturning), Exchange.Delivery.done.injEq] at hback
    subst hback
    exact hended.of_same rfl rfl rfl

theorem Inv.move (inv : s.Inv cores stream) (hmove : Move s s') : s'.Inv cores stream := by
  obtain ⟨hcalm, hended, h, hs⟩ := inv
  obtain ⟨hsignals, hsource, hpool, -⟩ := Serving.flags hs hmove
  refine ⟨⟨?_, ?_, ?_, ?_⟩, hended.move hs hmove, Serving.move hs hmove⟩
  · rw [hsignals, hcalm.running]
  · rw [hsignals, hcalm.cancelled]
  · rw [hsource, hcalm.source_open]
  · rw [hpool, hcalm.pool_open]

theorem Inv.reach (inv : s.Inv cores stream) (hreach : Reach s s') : s'.Inv cores stream := by
  induction hreach with
  | refl => exact inv
  | tail _ hmove ih => exact ih.move hmove

/-- Every number of cores that a snapshot can hold and every pool that fits into
memory make a device. -/
theorem start_inv {cores depth : Int} (hlow : 1 ≤ cores) (hhigh : cores ≤ maxCores)
    (hdepth : 1 ≤ depth) (hroom : Pool.checkRoom depth chunkSize = .ok ()) (maxRead : Nat)
    (stream : List UInt8) :
    ∃ s, start cores depth maxRead stream = .ok s ∧ s.Inv cores.toNat stream := by
  obtain ⟨d, hcreate, -, hcalm, hd⟩ := Device.create_sound { maxRead } stream hlow hhigh
    hdepth hroom rfl (.inl rfl)
  refine ⟨{ device := d.start, pending := stream }, ?_, hcalm, .inl rfl, _, hd, rfl, rfl⟩
  simp only [start, hcreate]
  rfl

/-! ## Every run ends -/

/-- How far the checker is from its next take. -/
def rank : Taker → Nat
  | .idle => 0
  | .returning _ => 1
  | .reading _ => 2

/-- What is left to do for everybody.  A snapshot in the full place is less than
the step that put it there, and more than what the checker does with it. -/
def effort (s : Intake) : Nat :=
  9 * (s.device.work + 2 * s.pending.length) + s.pending.length +
    (s.device.source.tail == .opened).toNat + 8 * s.device.exchange.full.toList.length +
    rank s.checker + s.goesOn.toNat

theorem Serving.effort_lt (hs : s.Serving cores stream h) (hmove : Move s s') :
    s'.effort < s.effort := by
  obtain ⟨hd, hchecker, -⟩ := hs
  cases hmove with
  | @feed piece rest hpending hpiece =>
    have hpos := List.length_pos_iff.mpr hpiece
    have hlen := congrArg List.length hpending
    rw [List.length_append] at hlen
    simp only [effort, goesOn, Device.work, Source.feed, List.length_append]
    omega
  | finish hpending htail =>
    simp [effort, goesOn, Device.work, Source.finish, htail]
  | @reader d hnext =>
    have hwork := hd.work_readerNext hnext
    obtain ⟨-, hkeeps⟩ := hd.readerNext hnext
    obtain ⟨hexchange, -⟩ := Device.readerNext_frame hnext
    simp only [effort, goesOn, hkeeps.tail_eq, hexchange]
    omega
  | @assembler d hnext =>
    have hwork := Device.work_assemblerNext hnext
    obtain ⟨h', -, -, -, hd', hkeeps⟩ := hd.assemblerNext hnext
    have hone : d.exchange.full.toList.length ≤ 1 := by cases d.exchange.full <;> simp
    simp only [effort, goesOn, hkeeps.tail_eq]
    omega
  | @take t x hidle _ htake =>
    rw [← hd.exchange_eq] at htake
    obtain ⟨-, hfull, rfl, -⟩ := hd.inv.owned.take_ok htake
    rw [hd.exchange_eq] at hfull
    simp [effort, goesOn, Device.work, hidle, rank, hfull, Except.isOk, Except.toBool]
  | @takeFailed e x hidle hgoes htake =>
    rw [← hd.exchange_eq] at htake
    obtain ⟨-, rfl, -, -⟩ := hd.inv.take_error htake
    rw [hd.exchange_eq]
    simp only [effort, Device.work, hgoes]
    simp [goesOn, Except.isOk, Except.toBool]
  | @reset t hreading =>
    simp [effort, goesOn, Device.work, hreading, rank, Exchange.reset, Exchange.update]
  | @giveBack t x hreturning hback =>
    rw [hd.giveBack_eq (hchecker.trans hreturning), Exchange.Delivery.done.injEq] at hback
    subst hback
    simp [effort, goesOn, Device.work, hreturning, rank]

theorem Inv.effort_lt (inv : s.Inv cores stream) (hmove : Move s s') : s'.effort < s.effort := by
  obtain ⟨-, -, h, hs⟩ := inv
  exact Serving.effort_lt hs hmove

/-! ## What the checker gets -/

/-- What the checker has got so far, and what the workers say when they end. -/
structure Delivered (cores : Nat) (stream : List UInt8) (s : Intake) : Prop where
  /-- The snapshots are numbered from one, and each has for every core the record
  of that core in its block of the stream. -/
  taken_block : ∀ (k : Nat) (snapshot : Snapshot), s.taken[k]? = some snapshot →
    snapshot.seq = .ofNat (k + 1) ∧ snapshot.cores = cores ∧
      ∀ core < cores,
        (core, snapshot.record core) ∈ Stream.block cores (Stream.records stream) k
  /-- Only blocks before the first bad record are taken. -/
  taken_le : s.taken.length ≤ Stream.firstBad cores (Stream.records stream) / cores
  /-- A snapshot that the checker reads stays as it was when it was taken. -/
  reading_same : ∀ t, s.checker = .reading t →
    s.taken.getLast? = some (s.device.exchange.snapshot t)
  /-- A take fails only once all of these blocks have been taken. -/
  take_failed : ∀ e, .error e ∈ s.takes → e = .exchangeSealed ∧
    s.taken.length = Stream.firstBad cores (Stream.records stream) / cores
  /-- The assembler ends with the first bad record, or without an error. -/
  assembler_returned : ∀ failure, s.device.assembler.phase = .returned failure →
    failure = Stream.refusal cores (Stream.records stream)
  /-- The reader ends with the bytes that are left over, or without an error. -/
  reader_returned : ∀ failure, s.device.reader.phase = .returned failure →
    failure = if chunkSize ∣ stream.length then none
      else some (.shortRecord (stream.length % chunkSize) chunkSize
        (.ofNat (stream.length / chunkSize)))

/-- How it ends: every block before the first bad record has been taken. -/
structure Complete (cores : Nat) (stream : List UInt8) (s : Intake) : Prop where
  takes_eq : s.takes = s.taken.map Except.ok ++ [.error .exchangeSealed]
  taken_length : s.taken.length = Stream.firstBad cores (Stream.records stream) / cores
  assembler_returned :
    s.device.assembler.phase = .returned (Stream.refusal cores (Stream.records stream))
  /-- Without a bad record the reader comes to the end of the stream; with one it
  may be left waiting. -/
  reader_returned : Stream.refusal cores (Stream.records stream) = none →
    s.device.reader.phase = .returned (if chunkSize ∣ stream.length then none
      else some (.shortRecord (stream.length % chunkSize) chunkSize
        (.ofNat (stream.length / chunkSize))))

/-- A checker that has found the exchange sealed has taken everything. -/
theorem Inv.taken_length (inv : s.Inv cores stream) (hgoes : s.goesOn = false) :
    s.taken.length = Stream.firstBad cores (Stream.records stream) / cores ∧
      s.device.assembler.phase = .returned (Stream.refusal cores (Stream.records stream)) := by
  obtain ⟨hcalm, hended, h, hd, -, htakes⟩ := inv
  rcases hended with hnot | ⟨-, hsealed, hfull⟩
  · simp [hgoes] at hnot
  · obtain ⟨failure, hphase⟩ := hd.assembler_over (hd.exchange_sealed.mp hsealed)
    obtain ⟨rfl, hlength, -⟩ := hd.assembler_returned hcalm hphase
    refine ⟨?_, hphase⟩
    have horder := hd.inv.order
    simp only [Handover.pending, hd.exchange_eq, hfull, Option.map_none, Option.toList_none,
      List.append_nil] at horder
    rw [← hlength, ← horder]
    simp only [taken, Handover.taken, htakes]

theorem Inv.delivered (inv : s.Inv cores stream) : s.Delivered cores stream := by
  have hlength := inv.taken_length
  obtain ⟨hcalm, hended, h, hd, hchecker, htakes⟩ := inv
  have htaken : s.taken = h.taken := by simp only [taken, Handover.taken, htakes]
  refine ⟨?_, ?_, ?_, ?_, ?_, ?_⟩
  · intro k snapshot hk
    obtain ⟨hseq, hholds, hlen⟩ := hd.published (hd.inv.published_of_taken (htaken ▸ hk))
    exact ⟨hseq, hholds.cores_eq, fun core hcore => hholds.record_mem hlen hcore⟩
  · have hle := hd.published_le
    rw [← hd.inv.order, List.length_append, ← htaken] at hle
    omega
  · intro t hreading
    have hsafe := hd.inv.safe.reading_whole t (hchecker.trans hreading)
    rw [htaken, ← hd.exchange_eq]
    exact hsafe.2.2
  · intro e he
    have hgoes : s.goesOn = false := by
      rw [← Bool.not_eq_true, goesOn, List.all_eq_true]
      exact fun hall => by simpa [Except.isOk, Except.toBool] using hall _ he
    refine ⟨hd.inv.failed e (htakes ▸ he), (hlength hgoes).1⟩
  · exact fun failure hphase => (hd.assembler_returned hcalm hphase).1
  · exact fun failure hphase => hd.reader_returned hcalm hphase

/-- When nobody can move, the checker has come to its end. -/
theorem Inv.goesOn_of_stuck (inv : s.Inv cores stream) (hstuck : s.Stuck) : s.goesOn = false := by
  obtain ⟨-, -, h, hd, hchecker, -⟩ := inv
  by_contra hgoes
  rw [Bool.not_eq_false] at hgoes
  have hreader : s.device.readerNext = [] :=
    List.eq_nil_iff_forall_not_mem.mpr fun d hnext => hstuck _ (.reader hnext)
  have hassembler : s.device.assemblerNext = [] :=
    List.eq_nil_iff_forall_not_mem.mpr fun d hnext => hstuck _ (.assembler hnext)
  have htail : s.device.source.tail ≠ .opened := by
    intro hopen
    by_cases hpending : s.pending = []
    · exact hstuck _ (.finish hpending hopen)
    · exact hstuck _ (.feed (List.append_nil _).symm hpending)
  have hidle : s.checker = .idle := by
    cases hh : s.checker with
    | idle => rfl
    | reading t => exact absurd (Move.reset hh) (hstuck _)
    | returning t =>
      exact absurd (Move.giveBack hh (hd.giveBack_eq (hchecker.trans hh))) (hstuck _)
  have hfull : s.device.exchange.full = none := by
    cases hh : s.device.exchange.full with
    | none => rfl
    | some t => exact absurd (Move.take hidle hgoes (hd.take_full hh)) (hstuck _)
  have hdone := hd.drained hreader hassembler htail (hchecker.trans hidle) hfull
  have hsealed := hd.exchange_sealed.mpr (by simp [hdone])
  have htake := Exchange.take_none hfull
  rw [hsealed, if_pos rfl] at htake
  exact hstuck _ (.takeFailed hidle hgoes htake)

theorem Inv.complete (inv : s.Inv cores stream) (hstuck : s.Stuck) : s.Complete cores stream := by
  have hgoes := inv.goesOn_of_stuck hstuck
  obtain ⟨hlength, hphase⟩ := inv.taken_length hgoes
  obtain ⟨hcalm, hended, h, hd, -, -⟩ := inv
  refine ⟨?_, hlength, hphase, ?_⟩
  · rcases hended with hnot | ⟨htakes, -⟩
    · simp [hgoes] at hnot
    · exact htakes
  · intro hnone
    obtain ⟨-, -, hsealed⟩ := hd.assembler_returned hcalm hphase
    obtain ⟨failure, hreturned⟩ := hd.reader_over (hd.pool_sealed.mp (hsealed hnone))
    rw [hreturned, hd.reader_returned hcalm hreturned]

/-- Whatever the stream and the order of steps, the checker gets the blocks before
the first bad record, each once, in order and whole; and every run comes to its
end. -/
theorem delivered_of_reach (cores depth : Int) (hlow : 1 ≤ cores) (hhigh : cores ≤ maxCores)
    (hdepth : 1 ≤ depth) (hroom : Pool.checkRoom depth chunkSize = .ok ()) (maxRead : Nat)
    (stream : List UInt8) :
    ∃ s₀, start cores depth maxRead stream = .ok s₀ ∧
      (∀ s, Reach s₀ s → s.Delivered cores.toNat stream) ∧
      (∀ s, Reach s₀ s → s.Stuck → s.Complete cores.toNat stream) ∧ ¬ Endless Move s₀ := by
  obtain ⟨s₀, hstart, inv⟩ := start_inv hlow hhigh hdepth hroom maxRead stream
  refine ⟨s₀, hstart, fun s hreach => (inv.reach hreach).delivered,
    fun s hreach => (inv.reach hreach).complete, ?_⟩
  exact not_endless effort (fun _ _ inv hmove => inv.move hmove)
    (fun _ _ inv hmove => inv.effort_lt hmove) inv

/-- Two cores over a single chunk: the fourth record repeats a core of its block and
a byte is left over at the end, so the checker gets one snapshot. -/
theorem delivered_of_reach_repeated_core :
    ∃ s₀, start 2 1 0 (([0, 1, 1, 1].flatMap fun core => List.replicate recordSize 0 ++ [core]) ++
        [7]) = .ok s₀ ∧
      (∀ s, Reach s₀ s → s.Stuck → s.taken.length = 1 ∧
        s.device.assembler.phase = .returned (some (.duplicateCore 1))) ∧ ¬ Endless Move s₀ := by
  obtain ⟨s₀, hstart, -, hcomplete, hends⟩ := delivered_of_reach 2 1 (by decide) (by decide)
    (by decide) (by decide) 0
    (([0, 1, 1, 1].flatMap fun core => List.replicate recordSize 0 ++ [core]) ++ [7])
  refine ⟨s₀, hstart, fun s hreach hstuck => ?_, hends⟩
  have hdone := hcomplete s hreach hstuck
  exact ⟨hdone.taken_length.trans (by decide +kernel),
    hdone.assembler_returned.trans (congrArg _ (by decide +kernel))⟩

end Intake

end Cosim

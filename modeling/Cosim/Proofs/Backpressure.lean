import Cosim.Proofs.Custody
import Cosim.Proofs.Delivery
import Cosim.Proofs.Frames

/-!
# Backpressure

How far the workers of a device can be ahead of the checker.  Two stocks limit them: the chunks
of the pool, without which the reader takes nothing off the stream, and the one snapshot of the
exchange, without which the assembler files nothing.

* `Supplied.records_le`, `Assembly.acquired_le_filed` and `Assembly.filed_le_drained` follow a
  record from the stream to a snapshot: one that is off the stream is in a chunk, in the
  assembler's hands, or filed in a snapshot that the checker has not drained.
* `Device.Sound.lead_le` adds them up.
* `Backlog` meters a run: the bytes taken off the stream, the snapshots published, and the
  snapshots drained.  `Backlog.bounded_of_reach` is the main statement.
-/

namespace Cosim

/-! ## Where a record can be -/

/-- Every chunk is in one of the four places. -/
theorem Pool.Placed.length_places {p : Pool} {writing reading : List Nat}
    (hp : p.Placed writing reading) :
    p.free.length + writing.length + p.busy.length + reading.length = p.depth := by
  have inv : { pool := p, writing, reading : Custody }.Inv := hp
  have hlength := inv.handles_perm.length_eq
  simp only [Custody.handles, List.length_append, List.length_range, List.length_nil] at hlength
  omega

/-- What is ahead of the busy queue and off the stream fits into the reader's chunk, a part of a
record apart. -/
theorem Supply.length_ahead_lt {stream pending : List UInt8} {calm : Prop}
    {reading leaked : List Nat} {acquired : Nat} {r : Reader} {source : Source} {pool : Pool}
    {lost : List UInt8}
    (hs : Supply chunkSize stream pending calm r source pool acquired leaked lost)
    (hp : pool.Placed (r.phase.hand ++ leaked) reading) (hsize : pool.size = chunkSize)
    (hcalm : calm) :
    (r.ahead source pool pending).length + lost.length <
      source.queue.length + pending.length + chunkSize * (r.phase.hand.length + 1) := by
  have hpositive : 0 < chunkSize := by decide
  cases hphase : r.phase with
  | idle => exact absurd hphase hs.started
  | start | enter | acquire | count =>
    obtain ⟨rfl, -⟩ := hs.active (by simp [hphase, Reader.Phase.isOver])
    simp only [Reader.ahead, hphase, List.length_append, List.length_nil, Reader.Phase.hand]
    omega
  | fill h got =>
    obtain ⟨rfl, -⟩ := hs.active (by simp [hphase, Reader.Phase.isOver])
    have hgot := hs.got_le h got hphase
    simp only [Reader.ahead, hphase, List.length_append, List.length_take, List.length_nil,
      Reader.Phase.hand, List.length_singleton]
    omega
  | publish h =>
    obtain ⟨rfl, -⟩ := hs.active (by simp [hphase, Reader.Phase.isOver])
    have hmem : h ∈ pool.place (r.phase.hand ++ leaked) reading (.free, true) := by
      simp [Pool.place, hphase, Reader.Phase.hand]
    have hbytes := hp.length_eq h (hp.lt_depth hmem)
    simp only [Reader.ahead, hphase, List.length_append, List.length_nil, Reader.Phase.hand,
      List.length_singleton]
    omega
  | stopped got how =>
    obtain ⟨-, hlost, hgot⟩ := hs.stopped got how hphase hcalm
    simp only [Reader.ahead, hphase, List.length_nil, Reader.Phase.hand]
    omega
  | returned failure =>
    obtain ⟨hlost, -⟩ := hs.returned failure hphase hcalm
    simp only [Reader.ahead, hphase, List.length_nil, Reader.Phase.hand]
    omega

/-- A record that is off the stream has been acquired by the assembler, waits in the busy queue,
or is in a chunk that is checked out to the reader. -/
theorem Supplied.records_le {stream pending : List UInt8} {calm : Prop} {reading : List Nat}
    {acquired : Nat} {r : Reader} {source : Source} {pool : Pool}
    (hs : Supplied chunkSize stream pending calm reading acquired r source pool) (hcalm : calm)
    (hacquired : acquired ≤ (Stream.records stream).length) :
    (stream.length - (source.queue.length + pending.length)) / chunkSize + reading.length ≤
      acquired + pool.depth := by
  obtain ⟨leaked, lost, hs, hp, hsize⟩ := hs
  have hlength := congrArg List.length hs.stream_eq
  rw [List.length_drop, List.length_append, List.length_append, hp.length_waiting, hsize] at hlength
  rw [Stream.length_records, Nat.le_div_iff_mul_le (by decide), Nat.mul_comm] at hacquired
  have hahead := hs.length_ahead_lt hp hsize hcalm
  have hplaces := hp.length_places
  rw [List.length_append] at hplaces
  have hoff : stream.length - (source.queue.length + pending.length) <
      chunkSize * (acquired + pool.busy.length + r.phase.hand.length + 1) := by
    simp only [chunkSize] at hlength hahead hacquired ⊢
    omega
  have hwhole := Nat.div_lt_of_lt_mul hoff
  omega

/-- What has been published has been taken, or waits to be. -/
theorem Handover.Inv.length_published {cores : Nat} {h : Handover} (inv : h.Inv cores) :
    h.published.length = h.taken.length + h.exchange.full.toList.length := by
  rw [← inv.order, List.length_append, pending]
  cases h.exchange.full <;> rfl

/-- At most one snapshot has been published and not yet drained, and none while the filler has
it. -/
theorem Handover.Inv.published_le_drained {cores drained : Nat} {h : Handover} (inv : h.Inv cores)
    (hdrained : h.taken.length = drained + if h.taker = .idle then 0 else 1) :
    h.published.length ≤ drained + 1 ∧ (h.filler.ticket.isSome → h.published.length = drained) := by
  have hlength := inv.length_published
  constructor
  · cases hfull : h.exchange.full with
    | none =>
      rw [hfull, Option.toList_none, List.length_nil] at hlength
      split at hdrained <;> omega
    | some t =>
      obtain ⟨-, -, -, htaker⟩ := inv.owned.of_full hfull
      have hidle : h.taker = .idle := by cases hh : h.taker <;> simp_all [Taker.ticket]
      rw [hfull, Option.toList_some, List.length_singleton] at hlength
      rw [if_pos hidle] at hdrained
      omega
  · intro hclaimed
    obtain ⟨t, hticket⟩ := Option.isSome_iff_exists.mp hclaimed
    obtain ⟨-, hidle, -, hfull⟩ := inv.taker_idle hticket
    rw [hfull, Option.toList_none, List.length_nil] at hlength
    rw [if_pos hidle] at hdrained
    omega

/-- Wherever the snapshot is, it has all its cores. -/
theorem Handover.Inv.snapshot_cores {cores : Nat} {h : Handover} (inv : h.Inv cores) :
    (h.exchange.snapshot 0).cores = cores := by
  have howned := inv.owned
  cases hticket : h.filler.ticket with
  | some t =>
    obtain ⟨rfl, -⟩ := inv.taker_idle hticket
    exact (inv.claimed hticket).cores_eq
  | none =>
    cases htaker : h.taker with
    | idle =>
      rw [hticket, htaker] at howned
      rcases howned.waits with hempty | hfull
      · exact (inv.empty hempty).cores_eq
      · exact (inv.handed (.inl hfull)).1.cores_eq
    | reading t =>
      rw [htaker] at howned
      obtain ⟨rfl, -⟩ := howned.of_taken
      exact (inv.handed (.inr htaker)).1.cores_eq
    | returning t =>
      rw [htaker] at howned
      obtain ⟨rfl, -⟩ := howned.of_taken
      exact (inv.returning htaker).cores_eq

/-- The number of records that the assembler has copied out of its chunk and not yet filed. -/
def Assembler.Phase.loose : Phase → Nat
  | .file _ _ => 1
  | _ => 0

namespace Assembly

variable {cores : Nat} {rs : List Stream.Record} {signals : Signals} {calm : Prop} {a : Assembler}
  {pool : Pool} {h : Handover} {acquired filed drained : Nat}

/-- A record that has been acquired is in the assembler's hands or filed, since none is refused. -/
theorem acquired_le_filed (ha : Assembly cores rs signals calm a pool h acquired filed)
    (hcalm : calm) (hrunning : signals.cancelled = false) (hgood : Stream.refusal cores rs = none) :
    acquired ≤ filed + a.phase.hand.length + a.phase.loose := by
  have hacquired := ha.acquired_le
  cases hphase : a.phase with
  | idle => exact absurd hphase ha.started
  | inspect g | claim g | unpack g | file =>
    obtain ⟨-, hnext⟩ := ha.in_hand _ (by simp only [Assembler.inHand, hphase]; rfl)
    simp [hnext, Assembler.Phase.hand, Assembler.Phase.loose]
  | start | acquire | deliver | count =>
    have hsame := ha.hand_empty (by simp only [Assembler.inHand, hphase])
      (by simp [hphase, Assembler.Phase.isOver])
    omega
  | failed e =>
    rcases ha.failed e hphase with ⟨-, hcancelled⟩ | ⟨-, hrefusal⟩
    · simp [hrunning] at hcancelled
    · simp [hgood] at hrefusal
  | returned failure =>
    cases failure with
    | none =>
      obtain ⟨hall, -⟩ := ha.finished hphase hcalm
      omega
    | some e =>
      obtain ⟨-, hrefusal⟩ := ha.refused e hphase
      simp [hgood] at hrefusal

/-- The records filed and not yet drained fill at most one snapshot; while it is not full there is
room for one more. -/
theorem filed_le_drained (ha : Assembly cores rs signals calm a pool h acquired filed)
    (inv : h.Inv cores) (hcores : 0 < cores)
    (hdrained : h.taken.length = drained + if h.taker = .idle then 0 else 1) :
    filed + a.phase.loose ≤ cores * (drained + 1) := by
  obtain ⟨hle, hclaimed⟩ := inv.published_le_drained hdrained
  rw [ha.filler_eq, Assembler.ticket_filler] at hclaimed
  have hpublished := ha.published_length
  have hblocks := Nat.div_add_mod filed cores
  cases hcurrent : a.current with
  | none =>
    -- Between two snapshots all records filed are published.
    have hphase : a.phase.files = false := by
      rw [← Bool.not_eq_true]
      intro hfiles
      simp [ha.holding hfiles] at hcurrent
    have hloose : a.phase.loose = 0 := by
      cases hh : a.phase <;> simp_all [Assembler.Phase.loose, Assembler.Phase.files]
    have hdeliver : a.phase ≠ .deliver := by
      intro hdeliver
      simp [hdeliver, Assembler.Phase.files] at hphase
    rw [if_neg hdeliver, Nat.add_zero] at hpublished
    rw [ha.between hcurrent, ← hpublished] at hblocks
    calc filed + a.phase.loose = cores * h.published.length := by omega
      _ ≤ cores * (drained + 1) := Nat.mul_le_mul_left cores hle
  | some t =>
    have hsame := hclaimed (by simp [hcurrent])
    by_cases hdeliver : a.phase = .deliver
    · rw [if_pos hdeliver, hsame] at hpublished
      rw [(ha.delivering hdeliver).1, ← hpublished] at hblocks
      simp only [hdeliver, Assembler.Phase.loose]
      omega
    · have hroom := Nat.lt_mul_div_succ filed hcores
      have hloose : a.phase.loose ≤ 1 := by
        cases hh : a.phase <;> simp [Assembler.Phase.loose]
      rw [if_neg hdeliver, hsame, Nat.add_zero] at hpublished
      rw [← hpublished] at hroom
      omega

end Assembly

/-- The workers are ahead of what the checker has drained by one snapshot and a pool of chunks. -/
theorem Device.Sound.lead_le {cores drained : Nat} {stream pending : List UInt8} {d : Device}
    {h : Handover} (hd : d.Sound cores stream pending h) (hcalm : d.Calm) (hcores : 0 < cores)
    (hgood : Stream.refusal cores (Stream.records stream) = none)
    (hdrained : h.taken.length = drained + if h.taker = .idle then 0 else 1) :
    (stream.length - (d.source.queue.length + pending.length)) / chunkSize ≤
      cores * (drained + 1) + d.pool.depth := by
  obtain ⟨acquired, filed, hs, ha⟩ := hd.assembled
  have hoff := hs.records_le hcalm ha.acquired_le
  have hacquired := ha.acquired_le_filed hcalm hcalm.cancelled hgood
  have hfiled := ha.filed_le_drained hd.inv hcores hdrained
  omega

/-! ## Metered runs -/

/-- A device between hardware and checker, with meters. -/
structure Backlog where
  intake : Intake
  /-- The bytes that the reader has taken off the stream. -/
  read : Nat := 0
  /-- The snapshots that have come into the full place of the exchange. -/
  published : Nat := 0
  /-- The snapshots that have come back into its empty place. -/
  drained : Nat := 0

namespace Backlog

/-- The meters after a step: they count what changes in the source and in the exchange. -/
def after (b : Backlog) (s : Intake) : Backlog where
  intake := s
  read := b.read + (b.intake.device.source.queue.length - s.device.source.queue.length)
  published := b.published +
    if b.intake.device.exchange.full = none ∧ s.device.exchange.full ≠ none then 1 else 0
  drained := b.drained +
    if b.intake.device.exchange.empty = none ∧ s.device.exchange.empty ≠ none then 1 else 0

/-- One step of the hardware, of a worker, or of the checker. -/
inductive Move : Backlog → Backlog → Prop where
  | step {b s} (hmove : Intake.Move b.intake s) : Move b (b.after s)

/-- Any number of steps, in any order. -/
abbrev Reach : Backlog → Backlog → Prop := Relation.ReflTransGen Move

/-- The meters agree with where bytes and snapshots are. -/
structure Inv (cores depth : Nat) (stream : List UInt8) (b : Backlog) : Prop where
  intake : b.intake.Inv cores stream
  depth_eq : b.intake.device.pool.depth = depth
  read_eq : b.read + (b.intake.device.source.queue.length + b.intake.pending.length) = stream.length
  published_eq : b.published = b.intake.taken.length + b.intake.device.exchange.full.toList.length
  drained_eq : b.intake.taken.length = b.drained + if b.intake.checker = .idle then 0 else 1

variable {cores depth : Nat} {stream : List UInt8} {b b' : Backlog} {s : Intake}

/-- A step that the meters have followed. -/
theorem Inv.after (inv : b.Inv cores depth stream) (hnext : s.Inv cores stream)
    (hdepth : s.device.pool.depth = b.intake.device.pool.depth)
    (hread : b.intake.device.source.queue.length - s.device.source.queue.length +
        (s.device.source.queue.length + s.pending.length) =
      b.intake.device.source.queue.length + b.intake.pending.length)
    (hpublished : b.intake.taken.length + b.intake.device.exchange.full.toList.length +
        (if b.intake.device.exchange.full = none ∧ s.device.exchange.full ≠ none then 1 else 0) =
      s.taken.length + s.device.exchange.full.toList.length)
    (hdrained : b.intake.taken.length + (if s.checker = .idle then 0 else 1) +
        (if b.intake.device.exchange.empty = none ∧ s.device.exchange.empty ≠ none then 1 else 0) =
      s.taken.length + if b.intake.checker = .idle then 0 else 1) :
    (b.after s).Inv cores depth stream := by
  have hread' := inv.read_eq
  have hpublished' := inv.published_eq
  have hdrained' := inv.drained_eq
  refine ⟨hnext, hdepth.trans inv.depth_eq, ?_, ?_, ?_⟩
  · simp only [Backlog.after]
    omega
  · simp only [Backlog.after]
    omega
  · show s.taken.length = b.drained +
      (if b.intake.device.exchange.empty = none ∧ s.device.exchange.empty ≠ none then 1 else 0) +
        if s.checker = .idle then 0 else 1
    omega

theorem Inv.move (inv : b.Inv cores depth stream) (hmove : Move b b') :
    b'.Inv cores depth stream := by
  obtain ⟨hmove⟩ := hmove
  have hnext := inv.intake.move hmove
  obtain ⟨-, -, h, hd, hchecker, htakes⟩ := inv.intake
  cases hmove with
  | @feed piece rest hpending hpiece =>
    refine inv.after hnext rfl ?_ (by simp [Intake.taken]) (by simp [Intake.taken])
    simp only [Source.feed, hpending, List.length_append]
    omega
  | finish hpending htail =>
    refine inv.after hnext rfl ?_ (by simp [Intake.taken]) (by simp [Intake.taken])
    simp [Source.finish]
  | reader hreader =>
    obtain ⟨hdepth, hqueue⟩ := hd.readerNext_source hreader
    obtain ⟨hexchange, -⟩ := Device.readerNext_frame hreader
    refine inv.after hnext hdepth ?_ ?_ ?_
    · simp only
      omega
    · simp [hexchange, Intake.taken]
    · simp [hexchange, Intake.taken]
  | assembler hassembler =>
    obtain ⟨hdepth, hsource, hempty, hfull⟩ := Device.assemblerNext_fed hassembler
    refine inv.after hnext hdepth ?_ ?_ ?_
    · simp [hsource]
    · rcases hfull with hsame | hnone
      · simp [hsame, Intake.taken]
      · rename_i d
        cases d.exchange.full <;> simp [hnone, Intake.taken]
    · rcases hempty with hsame | hnone
      · simp [hsame, Intake.taken]
      · simp [hnone, Intake.taken]
  | @take t x hidle hgoes htake =>
    rw [← hd.exchange_eq] at htake
    obtain ⟨rfl, hfull, rfl, -⟩ := hd.inv.owned.take_ok htake
    have hempty := (hd.inv.owned.of_full hfull).2.1
    rw [hd.exchange_eq] at hfull hempty
    refine inv.after hnext rfl (by simp) ?_ ?_
    · simp [hfull, Intake.taken, Except.toOption]
    · simp [hempty, hd.exchange_eq, hidle, Intake.taken, Except.toOption]
  | @takeFailed e x hidle hgoes htake =>
    rw [← hd.exchange_eq] at htake
    obtain ⟨rfl, rfl, -, -⟩ := hd.inv.take_error htake
    refine inv.after hnext rfl (by simp) ?_ ?_
    · simp [hd.exchange_eq, Intake.taken, Except.toOption]
    · simp [hd.exchange_eq, Intake.taken, Except.toOption]
  | reset hreading =>
    refine inv.after hnext rfl (by simp) ?_ ?_
    · simp [Exchange.reset, Exchange.update, Intake.taken]
    · simp [Exchange.reset, Exchange.update, hreading, Intake.taken]
  | @giveBack t x hreturning hback =>
    have howned := hd.inv.owned
    rw [hchecker, hreturning, Taker.ticket] at howned
    obtain ⟨-, hempty, -, hfull⟩ := howned.of_taken
    rw [hd.exchange_eq] at hempty hfull
    rw [hd.giveBack_eq (hchecker.trans hreturning), Exchange.Delivery.done.injEq] at hback
    subst hback
    refine inv.after hnext rfl (by simp) ?_ ?_
    · simp [hfull, Intake.taken]
    · simp [hempty, hreturning, Intake.taken]

theorem Inv.reach (inv : b.Inv cores depth stream) (hreach : Reach b b') :
    b'.Inv cores depth stream := by
  induction hreach with
  | refl => exact inv
  | tail _ hmove ih => exact ih.move hmove

theorem start_inv {cores depth : Int} (hlow : 1 ≤ cores) (hhigh : cores ≤ maxCores)
    (hdepth : 1 ≤ depth) (hroom : Pool.checkRoom depth chunkSize = .ok ()) (maxRead : Nat)
    (stream : List UInt8) :
    ∃ s, Intake.start cores depth maxRead stream = .ok s ∧
      { intake := s : Backlog }.Inv cores.toNat depth.toNat stream := by
  obtain ⟨s, hstart, inv⟩ := Intake.start_inv hlow hhigh hdepth hroom maxRead stream
  refine ⟨s, hstart, ?_⟩
  obtain ⟨d, hcreate, hs⟩ := bind_eq_ok hstart
  cases hs
  obtain ⟨pool, x, assembler, hpool, hexchange, rfl⟩ := Device.create_parts hcreate
  obtain ⟨-, -, rfl⟩ := Pool.create_eq_ok hpool
  obtain ⟨snapshot, -, hx⟩ := Exchange.create_ok hlow hhigh
  obtain rfl := Except.ok.inj (hexchange.symm.trans hx)
  refine ⟨inv, Array.size_replicate, ?_, rfl, rfl⟩
  show 0 + (0 + stream.length) = stream.length
  omega

/-- The workers are ahead of the checker by no more than a snapshot and a pool of chunks, and use
no more memory than they began with. -/
structure Bounded (cores depth : Nat) (b : Backlog) : Prop where
  /-- Whole records that are off the stream. -/
  read_le : b.read / chunkSize ≤ cores * (b.drained + 1) + depth
  published_le : b.published ≤ b.drained + 1
  slots_size : b.intake.device.pool.slots.size = depth
  slots_length : ∀ slot ∈ b.intake.device.pool.slots, slot.bytes.length = chunkSize
  queues_le : b.intake.device.pool.free.length + b.intake.device.pool.busy.length ≤ depth
  /-- There is one snapshot, for so many cores. -/
  snapshots_size : b.intake.device.exchange.snapshots.size = 1
  snapshot_cores : (b.intake.device.exchange.snapshot 0).cores = cores

theorem Inv.bounded (inv : b.Inv cores depth stream) (hcores : 0 < cores)
    (hgood : Stream.refusal cores (Stream.records stream) = none) : b.Bounded cores depth := by
  obtain ⟨hcalm, -, h, hd, hchecker, htakes⟩ := inv.intake
  have htaken : h.taken = b.intake.taken := by rw [Handover.taken, htakes, Intake.taken]
  have hdrained : h.taken.length = b.drained + if h.taker = .idle then 0 else 1 := by
    rw [htaken, hchecker]
    exact inv.drained_eq
  have hread : stream.length -
      (b.intake.device.source.queue.length + b.intake.pending.length) = b.read := by
    have := inv.read_eq
    omega
  obtain ⟨acquired, filed, ⟨leaked, lost, hs, hp, hsize⟩, -⟩ := hd.assembled
  exact
    { read_le := by
        have hlead := hd.lead_le hcalm hcores hgood hdrained
        rwa [hread, inv.depth_eq] at hlead
      published_le := by
        obtain ⟨hle, -⟩ := hd.inv.published_le_drained hdrained
        rwa [hd.inv.length_published, htaken, hd.exchange_eq, ← inv.published_eq] at hle
      slots_size := inv.depth_eq
      slots_length := by
        intro slot hslot
        obtain ⟨g, hg, rfl⟩ := Array.mem_iff_getElem.mp hslot
        have hlength := hp.length_eq g hg
        rwa [Pool.slot, Array.getD_eq_getD_getElem?, Array.getElem?_eq_getElem hg, Option.getD_some,
          hsize] at hlength
      queues_le := by
        have hplaces := hp.length_places
        rw [inv.depth_eq] at hplaces
        omega
      snapshots_size := hd.exchange_eq ▸ hd.inv.owned.single
      snapshot_cores := hd.exchange_eq ▸ hd.inv.snapshot_cores }

/-- Whatever stream is delivered without a record that is refused, in pieces of any size, and in
whatever order reader, assembler and checker take their steps: the workers are never further ahead
of the checker than the stocks of chunks and snapshots allow. -/
theorem bounded_of_reach (cores depth : Int) (maxRead : Nat) (stream : List UInt8)
    (hlow : 1 ≤ cores) (hhigh : cores ≤ maxCores) (hdepth : 1 ≤ depth)
    (hroom : Pool.checkRoom depth chunkSize = .ok ())
    (hgood : Stream.refusal cores.toNat (Stream.records stream) = none) :
    ∃ s, Intake.start cores depth maxRead stream = .ok s ∧
      ∀ b, Reach { intake := s } b → b.Bounded cores.toNat depth.toNat := by
  obtain ⟨s, hstart, inv⟩ := start_inv hlow hhigh hdepth hroom maxRead stream
  exact ⟨s, hstart, fun b hreach => (inv.reach hreach).bounded (by omega) hgood⟩

/-- Letting the workers go on until both wait is a run. -/
theorem reach_settle (b : Backlog) :
    ∃ b', Reach b b' ∧ b'.intake = { b.intake with device := b.intake.device.settle } := by
  unfold Device.settle
  generalize b.intake.device.patience = fuel
  induction fuel generalizing b with
  | zero => exact ⟨b, .refl, rfl⟩
  | succ fuel ih =>
    cases hadvance : b.intake.device.advance with
    | none => exact ⟨b, .refl, by simp only [Device.settle.go, hadvance]⟩
    | some d =>
      have hmove : Intake.Move b.intake { b.intake with device := d } := by
        rcases Device.mem_next_of_advance hadvance with hreader | hassembler
        · exact .reader hreader
        · exact .assembler hassembler
      obtain ⟨b', hreach, hb'⟩ := ih (b.after { b.intake with device := d })
      refine ⟨b', .head (.step hmove) hreach, ?_⟩
      simp only [Device.settle.go, hadvance]
      exact hb'

/-- Two cores, a single chunk, and a stream of three snapshots that comes at once: while the
checker does nothing, three records come off the stream, and that is the most there can be. -/
theorem bounded_of_reach_single_chunk :
    let block := CoreState.encodeChunk 1 {} ++ CoreState.encodeChunk 0 {}
    let stream := block ++ block ++ block
    ∃ s, Intake.start 2 1 0 stream = .ok s ∧
      (∃ b, Reach { intake := s } b ∧ b.drained = 0 ∧ b.published = 1 ∧ b.read / chunkSize = 3) ∧
      ∀ b, Reach { intake := s } b → b.drained = 0 → b.published ≤ 1 ∧ b.read / chunkSize ≤ 3 := by
  intro block stream
  obtain ⟨s, hstart, hbounded⟩ := bounded_of_reach 2 1 0 stream (by decide) (by decide) (by decide)
    (by decide) (by decide +kernel)
  refine ⟨s, hstart, ?_, ?_⟩
  · obtain ⟨s', hstart', inv⟩ := start_inv (show (1 : Int) ≤ 2 by decide) (by decide)
      (show (1 : Int) ≤ 1 by decide) (by decide) 0 stream
    obtain rfl : s = s' := Except.ok.inj (hstart.symm.trans hstart')
    have hsettled : (Intake.start 2 1 0 stream).toOption.map (fun s =>
        let d := { s.device with source := s.device.source.feed stream }.settle
        (s.pending, s.taken.length, s.checker, d.source.queue.length, d.exchange.full)) =
        some (stream, 0, .idle, 3 * chunkSize, some 0) := by
      decide +kernel
    rw [hstart] at hsettled
    simp only [Except.toOption, Option.map_some, Option.some.injEq, Prod.mk.injEq] at hsettled
    obtain ⟨hpending, htaken, hidle, hqueue, hfull⟩ := hsettled
    have hfeed := Intake.Move.feed (hpending.trans (List.append_nil _).symm) (by decide)
    obtain ⟨b, hreach, hb⟩ := reach_settle ({ intake := s : Backlog }.after _)
    have hrun : Reach { intake := s } b := .head (.step hfeed) hreach
    obtain ⟨-, -, hread, hpublished, hdrained⟩ := inv.reach hrun
    rw [hb] at hread hpublished hdrained
    have hlength : stream.length = 6 * chunkSize := by decide +kernel
    have hrecords : b.read + (3 * chunkSize + 0) = 6 * chunkSize := by
      rw [← hlength, ← hread, ← hqueue]
      rfl
    have hsent : b.published = s.taken.length + (some 0).toList.length := by
      rw [hpublished, ← hfull]
      rfl
    have hback : s.taken.length = b.drained + if s.checker = .idle then 0 else 1 := hdrained
    rw [htaken] at hsent hback
    rw [if_pos hidle] at hback
    refine ⟨b, hrun, hback.symm, hsent, ?_⟩
    rw [show b.read = 3 * chunkSize by omega]
    decide
  · intro b hreach hdrained
    obtain ⟨hread, hpublished, -⟩ := hbounded b hreach
    rw [hdrained] at hread hpublished
    exact ⟨hpublished, hread⟩

end Backlog

end Cosim

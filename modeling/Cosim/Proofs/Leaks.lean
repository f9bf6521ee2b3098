import Cosim.Proofs.Codec
import Cosim.Proofs.Custody
import Cosim.Proofs.Recycling

/-!
# No chunk is lost

However it comes out that the assembler deals with a chunk, the chunk is given back once,
and the record that is filed is the one that the chunk was published with.  The reader has
at most one chunk.  So the pool loses none but the one that the reader had when it stopped,
whatever the stream holds and whenever the device is stopped.

* `Recycling.Inv.reach` is the run lemma: what is written down about a watched device stays
  right, whatever the workers, the hardware, the taker and those who stop the device do.
* `Recycling.Leakproof` collects what follows at all times, and once both workers have
  returned; `Recycling.leakproof_of_reach` is the main statement.
-/

namespace Cosim

open scoped List

namespace Recycling

variable {cores depth k : Nat} {s s' : Recycling} {d : Device} {c : Call} {record : Stream.Record}

namespace Inv

/-! ## Whatever happens -/

/-- What happens outside the workers and the pool. -/
theorem stay (inv : s.Inv cores depth) (hpool : d.pool = s.device.pool)
    (hreader : d.reader = s.device.reader) (hassembler : d.assembler = s.device.assembler)
    (hgained : s.device.gained d = []) (hdormant : d.Dormant)
    (hcancelled : s.device.signals.cancelled = true → d.signals.cancelled = true) :
    (s.after d).Inv cores depth := by
  refine inv.pass (.inl (by rw [hassembler])) (by rw [hassembler]) ?_ ?_ hgained hdormant hcancelled
  · rw [hpool, observe_pool, hreader]
    exact inv.attended
  · rw [hpool]
    exact .refl s.ledger _

/-- The pool is sealed or closed. -/
theorem reflag (inv : s.Inv cores depth) (isSealed isClosed : Bool)
    (hpool : d.pool = { s.device.pool with isSealed, isClosed })
    (hreader : d.reader = s.device.reader) (hassembler : d.assembler = s.device.assembler)
    (hgained : s.device.gained d = []) (hdormant : d.Dormant)
    (hcancelled : s.device.signals.cancelled = true → d.signals.cancelled = true) :
    (s.after d).Inv cores depth := by
  obtain ⟨hattended, hspares⟩ := inv.attended.reflag isSealed isClosed
  refine inv.pass (.inl (by rw [hassembler])) (by rw [hassembler]) ?_ ?_ hgained hdormant hcancelled
  · rw [hpool, hreader]
    exact hattended
  · rw [hpool]
    exact hspares

theorem start (inv : s.Inv cores depth) : (s.after s.device.start).Inv cores depth := by
  by_cases hstarted : s.device.started = true
  · rw [Device.start, if_pos hstarted]
    exact inv.stay rfl rfl rfl (Device.gained_of_snapshots rfl) inv.dormant id
  · obtain ⟨hreader, hassembler, hcalm⟩ := inv.dormant (by simpa using hstarted)
    rw [Device.start, if_neg hstarted]
    have hrests : s.device.assembler.phase.deals = false := by rw [hassembler]; rfl
    have hattended : (s.ledger.observe s.device.pool).Attended depth
        { s.device.reader with phase := .start } s.device.assembler.phase.hand :=
      (inv.attended.goto fun _ => by simp [hreader, Reader.Phase.isOver, Reader.Phase.hand]).1
    exact inv.pass (.inr ⟨hrests, rfl⟩) rfl hattended (.refl s.ledger _)
      (Device.gained_of_snapshots rfl) (fun hnot => by cases hnot) (by simp [hcalm])

theorem reader (inv : s.Inv cores depth) (hmem : d ∈ s.device.readerNext) :
    (s.after d).Inv cores depth := by
  rcases Device.mem_readerNext hmem with ⟨r, source, p, hnext, rfl⟩ | ⟨failure, hphase, hexit⟩
  · obtain ⟨hattended, hspares⟩ := inv.attended.next hnext
    refine inv.pass (.inl rfl) rfl hattended hspares (Device.gained_of_snapshots rfl) ?_ id
    intro hnot
    obtain ⟨hidle, -⟩ := inv.dormant hnot
    simp [Reader.next, hidle] at hnext
  · rcases hexit with ⟨-, rfl⟩ | ⟨-, rfl⟩
    · exact inv.reflag true s.device.pool.isClosed rfl rfl rfl (Device.gained_of_snapshots rfl)
        inv.dormant id
    · exact inv.stay rfl rfl rfl (Device.gained_of_snapshots rfl) inv.dormant id

theorem work (inv : s.Inv cores depth) (hstep : Device.Step s.device d) :
    (s.after d).Inv cores depth := by
  rcases List.mem_append.mp hstep with hreader | hassembler
  · exact inv.reader hreader
  · rcases Device.mem_assemblerNext hassembler with ⟨a, p, x, hnext, rfl⟩ | ⟨failure, hphase, hexit⟩
    · exact inv.assembler hnext
    · rcases hexit with ⟨-, rfl⟩ | ⟨-, rfl⟩ <;>
        exact inv.stay rfl rfl rfl (Device.gained_of_snapshots rfl) inv.dormant id

theorem event (inv : s.Inv cores depth) (hevent : Device.Event s.device d) :
    (s.after d).Inv cores depth := by
  cases hevent with
  | start => exact inv.start
  | work hstep => exact inv.work hstep
  | feed bytes => exact inv.stay rfl rfl rfl (Device.gained_of_snapshots rfl) inv.dormant id
  | finish how => exact inv.stay rfl rfl rfl (Device.gained_of_snapshots rfl) inv.dormant id
  | take htake =>
    exact inv.stay rfl rfl rfl (Device.gained_of_snapshots (Exchange.snapshots_take htake))
      inv.dormant id
  | reset t =>
    refine inv.stay rfl rfl rfl ?_ inv.dormant id
    unfold Device.gained
    cases s.device.assembler.current with
    | none => rfl
    | some current => exact s.device.exchange.gained_reset current t
  | giveBack t hback =>
    exact inv.stay rfl rfl rfl (Device.gained_of_snapshots (Exchange.snapshots_giveBack hback))
      inv.dormant id

theorem halt (inv : s.Inv cores depth) (action : Device.Halt) :
    (s.after (s.device.halt action)).Inv cores depth := by
  cases action with
  | lower => exact inv.stay rfl rfl rfl (Device.gained_of_snapshots rfl) inv.dormant id
  | closeSource => exact inv.stay rfl rfl rfl (Device.gained_of_snapshots rfl) inv.dormant id
  | closePool =>
    exact inv.reflag s.device.pool.isSealed true rfl rfl rfl (Device.gained_of_snapshots rfl)
      inv.dormant id
  | cancel =>
    refine inv.stay rfl rfl rfl (Device.gained_of_snapshots rfl) (fun hnot => ?_) fun hsignal => ?_
    · have hcold : s.device.started = false := hnot
      obtain ⟨hreader, hassembler, hcalm⟩ := inv.dormant hcold
      exact ⟨hreader, hassembler, by simp [Device.halt, hcalm, hcold]⟩
    · simp [Device.halt, hsignal]

theorem abandon (inv : s.Inv cores depth) : (s.after s.device.abandon).Inv cores depth := by
  refine inv.stay rfl rfl rfl (Device.gained_of_snapshots rfl) (fun hnot => ?_) fun hsignal => ?_
  · have hcold : s.device.started = false := hnot
    obtain ⟨hreader, hassembler, hcalm⟩ := inv.dormant hcold
    exact ⟨hreader, hassembler, by simp [Device.abandon, hcalm, hcold]⟩
  · cases hstarted : s.device.started <;> simp [Device.abandon, hstarted, hsignal]

theorem move (inv : s.Inv cores depth) (hmove : Move s s') : s'.Inv cores depth := by
  cases hmove with
  | event hevent => exact inv.event hevent
  | reported => exact inv.stay rfl rfl rfl (Device.gained_of_snapshots rfl) inv.dormant id
  | abandon => exact inv.abandon
  | begin => exact inv.stay rfl rfl rfl (Device.gained_of_snapshots rfl) inv.dormant id
  | halt action => exact inv.halt action

theorem reach (inv : s.Inv cores depth) (hreach : Reach s s') : s'.Inv cores depth := by
  induction hreach with
  | refl => exact inv
  | tail _ hmove ih => exact ih.move hmove

end Inv

theorem create_inv (source : Source) {cores depth : Int} (hlow : 1 ≤ cores)
    (hhigh : cores ≤ maxCores) (hdepth : 1 ≤ depth)
    (hroom : Pool.checkRoom depth chunkSize = .ok ()) :
    ∃ d, Device.create source cores depth = .ok d ∧
      { device := d : Recycling }.Inv cores.toNat depth.toNat := by
  obtain ⟨pool, hpool⟩ := Pool.create_ok hdepth (by decide) hroom
  obtain ⟨snapshot, -, hexchange⟩ := Exchange.create_ok hlow hhigh
  obtain ⟨hplaced, hsize, -⟩ := Pool.placed_create hpool
  have hcores : ((cores.toNat : Nat) : Int) = cores := Int.toNat_of_nonneg (by omega)
  refine ⟨_, Device.create_eq hpool hexchange, ?_⟩
  exact
    { attended := ⟨[], ⟨Ledger.create_inv hpool, hplaced, by simp [ledger, Ledger.published]⟩,
        by simp, fun _ => rfl⟩
      size_eq := hsize
      cores_eq := hcores.symm
      dormant := fun _ => ⟨rfl, rfl, rfl⟩
      fetched_eq := rfl
      released_eq := rfl
      past := by simp
      call_none := fun _ => rfl
      call_some := by simp }

/-- Let the workers of a watched device take so many steps, or fewer if both wait. -/
def run : Nat → Recycling → Recycling
  | 0, s => s
  | fuel + 1, s =>
    match s.device.advance with
    | none => s
    | some d => run fuel (s.after d)

theorem reach_run (fuel : Nat) (s : Recycling) : Reach s (s.run fuel) := by
  induction fuel generalizing s with
  | zero => exact .refl
  | succ fuel ih =>
    unfold run
    cases hadvance : s.device.advance with
    | none => exact .refl
    | some d =>
      have hstep : Device.Step s.device d :=
        List.mem_append.mpr (Device.mem_next_of_advance hadvance)
      exact .head (.event (.work hstep)) (ih (s.after d))

/-! ## No chunk is lost -/

/-- What is true of a watched device at all times. -/
structure Leakproof (cores depth : Nat) (s : Recycling) : Prop where
  /-- The assembler acquires chunks to deal with them, one after the other. -/
  fetched_eq : Ledger.fetched s.entries = (s.past ++ s.call.toList).map Call.chunk
  /-- Chunks are given back only while the assembler deals with one. -/
  released_eq : Ledger.released s.entries = (s.past ++ s.call.toList).flatMap Call.released
  /-- A chunk that the assembler is done with was given back exactly once. -/
  past_released : ∀ c ∈ s.past, c.released = [c.chunk]
  /-- Dealing with it ended in one of four ways.  If a record was filed, it is what decoding
  gives for the bytes that the chunk was published with. -/
  past_ends : ∀ (k : Nat) c, s.past[k]? = some c → ∃ bytes,
    (Ledger.published s.entries)[k]? = some (c.chunk, bytes) ∧
      CoreState.decode (bytes.take recordSize) = .ok (Stream.parse bytes).2 ∧
      Ends cores (Stream.parse bytes) s.device.signals.cancelled c
  /-- While the assembler deals with a chunk, it has it and the chunk is as it was published;
  or it has given it back, once, and by then it has copied the record, or filed it. -/
  call_eq : ∀ c, s.call = some c → ∃ bytes,
    (Ledger.published s.entries)[s.past.length]? = some (c.chunk, bytes) ∧
      CoreState.decode (bytes.take recordSize) = .ok (Stream.parse bytes).2 ∧
      (c.released = [] ∧ c.filed = [] ∧ s.device.assembler.phase.hand = [c.chunk] ∧
          s.device.pool.bytes c.chunk = .ok bytes ∨
        c.released = [c.chunk] ∧ s.device.assembler.phase.hand = [] ∧
          c.filed ++ s.device.assembler.phase.copied = [Stream.parse bytes])
  /-- A chunk is handed out to be written again only after it was given back. -/
  lent_prefix : Ledger.lent s.entries <+: List.range depth ++ Ledger.released s.entries
  /-- The chunks that are being read are with the assembler, which has none unless it deals
  with one. -/
  reading_eq : s.device.pool.withTag (.busy, true) = s.device.assembler.phase.hand
  rests : s.device.assembler.phase.deals = false →
    s.call = none ∧ s.device.pool.withTag (.busy, true) = []
  /-- The reader has the chunk that it fills, and at most one once it has stopped. -/
  writing_eq : s.device.reader.phase.isOver = false →
    s.device.pool.withTag (.free, true) = s.device.reader.phase.hand
  writing_le : (s.device.pool.withTag (.free, true)).length ≤ 1
  /-- Every chunk is in one place. -/
  places : (s.device.pool.free ++ s.device.pool.withTag (.free, true) ++
    (s.device.pool.busy ++ s.device.pool.withTag (.busy, true))).Perm (List.range depth)
  /-- Once both workers have returned, every chunk is in a queue, but for a free chunk that
  the reader may have kept. -/
  returned : ∀ failure failure', s.device.reader.phase = .returned failure →
    s.device.assembler.phase = .returned failure' →
    (s.device.pool.free ++ s.device.pool.busy ++ s.device.pool.withTag (.free, true)).Perm
        (List.range depth) ∧
      s.device.pool.busyCount = s.device.pool.busy.length

theorem Ends.released_eq {cancelled : Bool} (hends : Ends cores record cancelled c) :
    c.released = [c.chunk] := by
  cases hends <;> rfl

/-- Before the chunk is given back it is with the assembler, and after that the record is. -/
theorem Stage.custody {phase : Assembler.Phase} (hstage : Stage cores record phase c) :
    c.released = [] ∧ c.filed = [] ∧ phase.hand = [c.chunk] ∨
      c.released = [c.chunk] ∧ phase.hand = [] ∧ c.filed ++ phase.copied = [record] := by
  cases hstage with
  | inspect | claim | unpack => exact .inl ⟨rfl, rfl, rfl⟩
  | file | deliver | count => exact .inr ⟨rfl, rfl, rfl⟩

namespace Inv

theorem decode_published (inv : s.Inv cores depth) {x : Nat × List UInt8}
    (hk : (Ledger.published s.entries)[k]? = some x) :
    CoreState.decode (x.2.take recordSize) = .ok (Stream.parse x.2).2 := by
  obtain ⟨kept, hb, -⟩ := inv.attended
  have hlength : x.2.length = chunkSize :=
    (hb.whole x (List.mem_of_getElem? hk)).trans inv.size_eq
  exact CoreState.decode_eq (by simp [hlength, recordSize, chunkSize])

theorem leakproof (inv : s.Inv cores depth) : s.Leakproof cores depth := by
  obtain ⟨kept, hb, hone, hkept⟩ := inv.attended
  have hplaced : s.device.pool.Placed kept s.device.assembler.phase.hand := hb.placed
  have hdepth : s.device.pool.depth = depth := hb.inv.depth_eq
  have hwriting : s.device.pool.withTag (.free, true) = kept :=
    eq_of_perm_of_length_le_one (hplaced.withTag_perm (.free, true)) hone
  have hreading : s.device.pool.withTag (.busy, true) = s.device.assembler.phase.hand :=
    eq_of_perm_of_length_le_one (hplaced.withTag_perm (.busy, true))
      s.device.assembler.phase.length_hand_le
  have hplaces : (s.device.pool.free ++ kept ++
      (s.device.pool.busy ++ s.device.assembler.phase.hand)).Perm (List.range depth) := by
    have custody : { pool := s.device.pool, writing := kept
                     reading := s.device.assembler.phase.hand : Custody }.Inv := hplaced
    simpa [Custody.handles, hdepth] using custody.handles_perm
  exact
    { fetched_eq := inv.fetched_eq
      released_eq := inv.released_eq
      past_released := fun c hc => by
        obtain ⟨k, hk⟩ := List.mem_iff_getElem?.mp hc
        obtain ⟨bytes, -, hends⟩ := inv.past k c hk
        exact hends.released_eq
      past_ends := fun k c hk => by
        obtain ⟨bytes, hpublished, hends⟩ := inv.past k c hk
        exact ⟨bytes, hpublished, inv.decode_published hpublished, hends⟩
      call_eq := fun c hc => by
        obtain ⟨bytes, hdealing⟩ := inv.call_some c hc
        refine ⟨bytes, hdealing.published, inv.decode_published hdealing.published, ?_⟩
        rcases hdealing.stage.custody with ⟨hreleased, hfiled, hhand⟩ | hgiven
        · refine .inl ⟨hreleased, hfiled, hhand, ?_⟩
          have hmem : c.chunk ∈ s.device.assembler.phase.hand := by simp [hhand]
          rw [← hdealing.bytes_eq c.chunk hmem]
          exact Pool.bytes_of_lt (hplaced.lt_depth (a := (.busy, true)) hmem)
        · exact .inr hgiven
      lent_prefix := ⟨_, hb.inv.lent_eq⟩
      reading_eq := hreading
      rests := fun hrests => by
        refine ⟨Option.not_isSome_iff_eq_none.mp ?_, ?_⟩
        · rw [inv.isSome_call, hrests]
          decide
        · rw [hreading, Assembler.Phase.hand_of_not_deals hrests]
      writing_eq := fun hover => hwriting.trans (hkept hover)
      writing_le := hwriting ▸ hone
      places := by rw [hwriting, hreading]; exact hplaces
      returned := fun failure failure' _ hassembler => by
        have hhand : s.device.assembler.phase.hand = [] := by rw [hassembler]; rfl
        rw [hhand] at hplaces hplaced
        refine ⟨?_, by simpa using hplaced.count_eq⟩
        rw [hwriting]
        calc s.device.pool.free ++ s.device.pool.busy ++ kept
          _ = s.device.pool.free ++ (s.device.pool.busy ++ kept) := List.append_assoc _ _ _
          _ ~ s.device.pool.free ++ (kept ++ s.device.pool.busy) :=
            List.perm_append_comm.append_left _
          _ = s.device.pool.free ++ kept ++ (s.device.pool.busy ++ []) := by simp
          _ ~ List.range depth := hplaces }

end Inv

/-- Whatever a device of at most 64 cores is fed, however its workers take turns and whenever
it is stopped, none of its chunks is lost. -/
theorem leakproof_of_reach (source : Source) (cores depth : Int) (hlow : 1 ≤ cores)
    (hhigh : cores ≤ maxCores) (hdepth : 1 ≤ depth)
    (hroom : Pool.checkRoom depth chunkSize = .ok ()) :
    ∃ d, Device.create source cores depth = .ok d ∧
      ∀ s, Reach { device := d } s → s.Leakproof cores.toNat depth.toNat := by
  obtain ⟨d, hcreate, inv⟩ := create_inv source hlow hhigh hdepth hroom
  exact ⟨d, hcreate, fun s hreach => (inv.reach hreach).leakproof⟩

/-- One core and two chunks.  The stream has a good record, one that names core 7, another
good one and three bytes more.  When both workers have returned, each chunk was given back
once and one record was filed; one chunk waits to be read, and the reader has kept the other. -/
theorem leakproof_of_reach_bad_core :
    let stream := CoreState.encodeChunk 0 {} ++ CoreState.encodeChunk 7 {} ++
      CoreState.encodeChunk 0 {} ++ [1, 2, 3]
    ∃ d s, Device.create { queue := stream, tail := .ended .finished } 1 2 = .ok d ∧
      Reach { device := d } s ∧ s.Leakproof 1 2 ∧
      s.past = [{ chunk := 0, released := [0], filed := [(0, {})] },
        { chunk := 1, released := [1], failure := some (.coreIndex 7 1) }] ∧
      s.device.reader.phase = .returned (some (.shortRecord 3 297 3)) ∧
      s.device.assembler.phase = .returned (some (.coreIndex 7 1)) ∧
      s.device.pool.free = [] ∧ s.device.pool.busy = [0] ∧
      s.device.pool.withTag (.free, true) = [1] ∧ s.device.pool.busyCount = 1 := by
  intro stream
  obtain ⟨d, hcreate, hleakproof⟩ := leakproof_of_reach
    { queue := stream, tail := .ended .finished } 1 2 (by decide) (by decide) (by decide)
    (by decide +kernel)
  have hreach : Reach { device := d } (({ device := d : Recycling }.after d.start).run 100) :=
    .head (.event .start) (reach_run 100 _)
  have hworkers : (Device.create { queue := stream, tail := .ended .finished } 1 2).toOption.map
      (fun d =>
        let s := ({ device := d : Recycling }.after d.start).run 100
        (s.past, s.device.reader.phase, s.device.assembler.phase)) =
      some ([{ chunk := 0, released := [0], filed := [(0, {})] },
          { chunk := 1, released := [1], failure := some (.coreIndex 7 1) }],
        .returned (some (.shortRecord 3 297 3)), .returned (some (.coreIndex 7 1))) := by
    decide +kernel
  have hpool : (Device.create { queue := stream, tail := .ended .finished } 1 2).toOption.map
      (fun d =>
        let p := (({ device := d : Recycling }.after d.start).run 100).device.pool
        (p.free, p.busy, p.withTag (.free, true), p.busyCount)) = some ([], [0], [1], 1) := by
    decide +kernel
  rw [hcreate] at hworkers hpool
  simp only [Except.toOption, Option.map_some, Option.some.injEq, Prod.mk.injEq] at hworkers hpool
  exact ⟨d, _, hcreate, hreach, hleakproof _ hreach, hworkers.1, hworkers.2.1, hworkers.2.2, hpool⟩

end Recycling

end Cosim

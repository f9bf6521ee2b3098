import Cosim.Proofs.Progress

/-!
# Cutting a stream into chunks

The reader cuts a byte stream into chunks of the pool's size.  The bytes arrive in pieces of any
size, chunks are used again and again, and the consumer takes and gives back chunks when it likes;
none of this has a part in where the stream is cut.

* `Stream.slices` are the whole slices of a stream, said without the reader.
* `Framing` is a reader with its source and its pool, what the hardware has delivered so far, and
  the chunks that have been published and acquired.  `Framing.Move` is one thing that can happen.
* `Framing.Inv` is the invariant: the chunks that have been published are the beginning of the
  stream, and what is ahead of them is on the reader's line.
* `Framing.Framed` collects what follows, and `Framing.framed_of_reach` is the main statement.
-/

namespace Cosim

namespace Stream

variable {size : Nat} {bytes chunk : List UInt8} {chunks : List (List UInt8)}

/-- The whole slices of this size, one after the other.  Bytes left over at the end belong to
none. -/
def slices (size : Nat) (bytes : List UInt8) : List (List UInt8) :=
  (List.range (bytes.length / size)).map fun i => (bytes.drop (size * i)).take size

@[simp] theorem length_slices (size : Nat) (bytes : List UInt8) :
    (slices size bytes).length = bytes.length / size := by
  simp [slices]

theorem slices_eq_nil (hshort : bytes.length < size) : slices size bytes = [] := by
  rw [slices, Nat.div_eq_of_lt hshort]
  rfl

theorem slices_append (hpos : 0 < size) (hchunk : chunk.length = size) (bytes : List UInt8) :
    slices size (chunk ++ bytes) = chunk :: slices size bytes := by
  have hcount : (chunk ++ bytes).length / size = bytes.length / size + 1 := by
    rw [List.length_append, hchunk, Nat.add_comm, Nat.add_div_right _ hpos]
  rw [slices, hcount, List.range_succ_eq_map, List.map_cons, List.map_map, Nat.mul_zero,
    List.drop_zero, ← hchunk, List.take_left, slices]
  congr 1
  refine List.map_congr_left fun i _ => ?_
  rw [Function.comp_apply, Nat.mul_succ, Nat.add_comm, ← List.drop_drop, List.drop_left]

theorem slices_flatten_append (hpos : 0 < size) (hchunks : ∀ chunk ∈ chunks, chunk.length = size)
    (bytes : List UInt8) : slices size (chunks.flatten ++ bytes) = chunks ++ slices size bytes := by
  induction chunks with
  | nil => rfl
  | cons chunk chunks ih =>
    obtain ⟨hchunk, hrest⟩ := List.forall_mem_cons.mp hchunks
    rw [List.flatten_cons, List.append_assoc, slices_append hpos hchunk, ih hrest]
    rfl

end Stream

/-! ## The reader by itself -/

/-- How far a phase of the reader is from the end of its round, where a byte of the source is worth
more than a round. -/
def Reader.Phase.distance : Reader.Phase → Nat
  | .idle | .returned _ => 0
  | .stopped _ _ => 4
  | .fill _ got => if got = 0 then 5 else 13
  | .acquire => 6
  | .enter => 7
  | .start => 8
  | .count => 10
  | .publish _ => 11

/-- A step of a reader that nobody stops publishes at most what it holds, and brings it closer to a
wait or to its end. -/
theorem Supplied.calm_next {size : Nat} {stream pending : List UInt8} {calm : Prop}
    {signals : Signals} {r r' : Reader} {source source' : Source} {pool pool' : Pool}
    {acquired : Nat} {reading : List Nat} (hpos : 0 < size)
    (hs : Supplied size stream pending calm reading acquired r source pool)
    (hcalm : Reader.Calm signals source pool) (hsealed : pool.isSealed = false)
    (hmem : (r', source', pool') ∈ r.next signals source pool) :
    (∃ fresh, pool'.waiting = pool.waiting ++ fresh) ∧
      12 * source'.queue.length + r'.phase.distance <
        12 * source.queue.length + r.phase.distance := by
  obtain ⟨leaked, lost, hs, hp, hsize⟩ := hs
  have hsame : ∃ fresh, pool.waiting = pool.waiting ++ fresh := ⟨[], (List.append_nil _).symm⟩
  unfold Reader.next at hmem
  cases hphase : r.phase with
  | idle | returned => simp [hphase] at hmem
  | start =>
    simp only [hphase, hcalm.running, if_true, List.mem_singleton, Prod.mk.injEq] at hmem
    obtain ⟨rfl, rfl, rfl⟩ := hmem
    exact ⟨hsame, by simp [Reader.goto, Reader.Phase.distance]⟩
  | enter =>
    simp only [hphase, List.mem_singleton, Prod.mk.injEq] at hmem
    obtain ⟨rfl, rfl, rfl⟩ := hmem
    refine ⟨hsame, ?_⟩
    split <;> simp [Reader.goto, Reader.Phase.distance]
  | acquire =>
    simp only [hphase, hcalm.cancelled, Bool.false_eq_true, if_false, List.append_nil,
      List.mem_map] at hmem
    obtain ⟨o, ho, heq⟩ := hmem
    rcases Pool.mem_freeOutcomes.mp ho with ⟨-, rfl⟩ | ⟨h, rest, hfree, rfl⟩
    · cases heq
      exact ⟨hsame, by simp [Reader.goto, Reader.Phase.distance]⟩
    · cases heq
      obtain ⟨-, -, -, hwaiting, -⟩ := hp.acquireFree hfree rfl
      rw [hwaiting]
      exact ⟨hsame, by simp [Reader.goto, Reader.Phase.distance]⟩
  | fill h got =>
    have hin : h ∈ r.phase.hand ++ leaked := by simp [hphase, Reader.Phase.hand]
    simp only [hphase] at hmem
    split at hmem
    · rename_i hfull
      simp only [List.mem_singleton, Prod.mk.injEq] at hmem
      obtain ⟨rfl, rfl, rfl⟩ := hmem
      have hgot : got ≠ 0 := by omega
      exact ⟨hsame, by simp [Reader.goto, Reader.Phase.distance, hgot]⟩
    · rename_i hmore
      split at hmem
      · simp at hmem
      · rename_i data source₁ hread
        simp only [List.mem_singleton, Prod.mk.injEq] at hmem
        obtain ⟨rfl, rfl, rfl⟩ := hmem
        have htail : source.tail ≠ .zeros := by
          rcases hs.tail_eq with ht | ⟨ht, -⟩ <;> simp [ht]
        obtain ⟨hqueue, hsome, hle, -⟩ := Source.read_bytes hread htail (by omega)
        obtain ⟨-, -, hwaiting, -⟩ := hp.write hin (show got + data.length ≤ _ by omega)
        rw [hwaiting]
        have hlength := congrArg List.length hqueue
        rw [List.length_append] at hlength
        have hgot : got + data.length ≠ 0 := by omega
        refine ⟨hsame, ?_⟩
        simp only [Reader.goto, Reader.Phase.distance, if_neg hgot]
        split <;> omega
      · simp only [List.mem_singleton, Prod.mk.injEq] at hmem
        obtain ⟨rfl, rfl, rfl⟩ := hmem
        refine ⟨hsame, ?_⟩
        simp only [Reader.goto, Reader.Phase.distance]
        split <;> omega
  | stopped got how =>
    simp only [hphase, List.mem_singleton, Prod.mk.injEq] at hmem
    obtain ⟨rfl, rfl, rfl⟩ := hmem
    exact ⟨hsame, by simp [Reader.goto, Reader.Phase.distance]⟩
  | publish h =>
    have hin : h ∈ r.phase.hand ++ leaked := by simp [hphase, Reader.Phase.hand]
    obtain ⟨pool₁, hok, -, -, -, -, hwaiting, -⟩ := hp.publish hin ⟨hsealed, hcalm.pool_open⟩
    simp only [hphase, hok, List.mem_singleton, Prod.mk.injEq] at hmem
    obtain ⟨rfl, rfl, rfl⟩ := hmem
    exact ⟨⟨_, hwaiting⟩, by simp [Reader.goto, Reader.Phase.distance]⟩
  | count =>
    simp only [hphase, List.mem_singleton, Prod.mk.injEq] at hmem
    obtain ⟨rfl, rfl, rfl⟩ := hmem
    exact ⟨hsame, by simp [Reader.Phase.distance]⟩

/-- What is still to come is at the end of the line. -/
theorem Supply.exists_held {size : Nat} {stream pending : List UInt8} {calm : Prop} {r : Reader}
    {source : Source} {pool : Pool} {acquired : Nat} {leaked : List Nat} {lost : List UInt8}
    (hs : Supply size stream pending calm r source pool acquired leaked lost) (hcalm : calm) :
    ∃ held, r.ahead source pool pending ++ lost = held ++ pending := by
  cases hover : r.phase.isOver with
  | false =>
    rw [(hs.active hover).1, List.append_nil]
    unfold Reader.ahead
    cases hphase : r.phase with
    | stopped | returned => simp [hphase, Reader.Phase.isOver] at hover
    | fill h got => exact ⟨_, (List.append_assoc _ _ _).symm⟩
    | publish h => exact ⟨_, (List.append_assoc _ _ _).symm⟩
    | idle | start | enter | acquire | count => exact ⟨_, rfl⟩
  | true =>
    have hended := hs.ended hover hcalm
    rcases hs.tail_eq with hopen | ⟨-, hpending⟩
    · simp [hopen] at hended
    · exact ⟨_, by rw [hpending, List.append_nil]⟩

/-- A reader that waits for bytes has less than a chunk and has left none in the source. -/
theorem Reader.fill_waits {signals : Signals} {r : Reader} {source : Source} {pool : Pool}
    {h got : Nat} (hnil : r.next signals source pool = []) (hphase : r.phase = .fill h got) :
    got < pool.size ∧ source.queue = [] := by
  simp only [Reader.next, hphase] at hnil
  split at hnil
  · simp at hnil
  · rename_i hmore
    refine ⟨by omega, ?_⟩
    cases hqueue : source.queue with
    | nil => rfl
    | cons byte queue =>
      unfold Source.read at hnil
      cases hclosed : source.isClosed <;> simp [hqueue, hclosed] at hnil

/-! ## What can happen -/

/-- A reader between the hardware and a consumer, and what has come of it. -/
structure Framing where
  reader : Reader := { phase := .start }
  source : Source
  pool : Pool
  /-- The bytes that the hardware has still to deliver. -/
  pending : List UInt8
  /-- The bytes that it has delivered. -/
  delivered : List UInt8 := []
  /-- What has been added to the busy queue, oldest first. -/
  published : List (List UInt8) := []
  /-- What the consumer has found in the chunks it acquired, oldest first. -/
  acquired : List (List UInt8) := []
  /-- The chunks that the consumer holds. -/
  reading : List Nat := []

namespace Framing

/-- The hardware has nothing delivered yet; a read returns at most `maxRead` bytes, if that is not
zero. -/
def start (pool : Pool) (maxRead : Nat) (stream : List UInt8) : Framing where
  source := { maxRead }
  pool := pool
  pending := stream

/-- The reader takes a step, and what that adds to the busy queue has been published. -/
def advance (f : Framing) (reader : Reader) (source : Source) (pool : Pool) : Framing :=
  { f with
    reader, source, pool, published := f.published ++ pool.waiting.drop f.pool.waiting.length }

/-- A step that the reader can take, when nobody stops it. -/
def Reads (f f' : Framing) : Prop :=
  ∃ reader source pool, (reader, source, pool) ∈ f.reader.next {} f.source f.pool ∧
    f' = f.advance reader source pool

/-- One thing that can happen. -/
inductive Move : Framing → Framing → Prop
  | deliver {f : Framing} {piece rest : List UInt8} (hpending : f.pending = piece ++ rest)
      (hpiece : piece ≠ []) :
      Move f { f with
        source := f.source.feed piece, pending := rest, delivered := f.delivered ++ piece }
  | finish {f : Framing} (hpending : f.pending = []) :
      Move f { f with source := f.source.finish .finished }
  | read {f f' : Framing} (hreads : f.Reads f') : Move f f'
  | acquire {f : Framing} {h : Nat} {pool : Pool} (hmem : .ok (h, pool) ∈ f.pool.busyOutcomes) :
      Move f { f with
        pool, acquired := f.acquired ++ [(pool.slot h).bytes], reading := f.reading ++ [h] }
  | release {f : Framing} {h : Int} {pool : Pool} (hok : f.pool.release h = .ok pool) :
      Move f { f with pool, reading := f.reading.erase h.toNat }

/-- What can come of it. -/
abbrev Reach : Framing → Framing → Prop := Relation.ReflTransGen Move

variable {size : Nat} {stream : List UInt8} {f f' : Framing}

/-- What holds at all times. -/
structure Inv (size : Nat) (stream : List UInt8) (f : Framing) : Prop where
  supplied : Supplied size stream f.pending True f.reading f.acquired.length f.reader f.source
    f.pool
  calm : Reader.Calm {} f.source f.pool
  not_sealed : f.pool.isSealed = false
  size_pos : 0 < size
  depth_pos : 0 < f.pool.depth
  stream_eq : f.delivered ++ f.pending = stream
  published_eq : f.published = f.acquired ++ f.pool.waiting
  acquired_eq : f.acquired.flatten = stream.take (size * f.acquired.length)
  acquired_size : ∀ chunk ∈ f.acquired, chunk.length = size

theorem Inv.read (inv : Inv size stream f) (hreads : f.Reads f') : Inv size stream f' := by
  obtain ⟨reader, source, pool, hmem, rfl⟩ := hreads
  have hs := inv.supplied.imp (fun _ : Reader.Calm {} f.source f.pool => trivial)
  obtain ⟨hs', hkeeps⟩ := hs.next inv.not_sealed hmem
  obtain ⟨⟨fresh, hfresh⟩, -⟩ := hs.calm_next inv.size_pos inv.calm inv.not_sealed hmem
  exact
    { inv with
      supplied := hs'.imp fun _ => inv.calm
      calm :=
        ⟨rfl, rfl, hkeeps.closed_eq.trans inv.calm.source_open,
          hkeeps.frame.closed_eq.trans inv.calm.pool_open⟩
      not_sealed := hkeeps.frame.sealed_eq.trans inv.not_sealed
      depth_pos := hkeeps.frame.depth_eq ▸ inv.depth_pos
      published_eq := by
        simp only [advance, hfresh, List.drop_left, inv.published_eq, List.append_assoc] }

theorem Inv.acquire (inv : Inv size stream f) {h : Nat} {pool : Pool}
    (hmem : .ok (h, pool) ∈ f.pool.busyOutcomes) :
    Inv size stream { f with
      pool, acquired := f.acquired ++ [(pool.slot h).bytes], reading := f.reading ++ [h] } := by
  obtain ⟨rest, hbusy, hpool⟩ := Pool.ok_mem_busyOutcomes.mp hmem
  obtain ⟨hs, hlength, ⟨after, hline⟩, hwaiting, hframe⟩ := inv.supplied.acquireBusy hbusy hpool
  exact
    { inv with
      supplied := by simpa using hs
      calm := ⟨rfl, rfl, inv.calm.source_open, hframe.closed_eq.trans inv.calm.pool_open⟩
      not_sealed := hframe.sealed_eq.trans inv.not_sealed
      depth_pos := hframe.depth_eq ▸ inv.depth_pos
      published_eq := by simp [inv.published_eq, hwaiting]
      acquired_eq := by
        rw [List.flatten_append, inv.acquired_eq, List.length_append, List.length_singleton,
          Nat.mul_add, Nat.mul_one, List.take_add, hline, ← hlength, List.take_left]
        simp
      acquired_size := by
        intro chunk hchunk
        rcases List.mem_append.mp hchunk with hold | hnew
        · exact inv.acquired_size chunk hold
        · rw [List.mem_singleton.mp hnew]
          exact hlength }

theorem Inv.release (inv : Inv size stream f) {h : Int} {pool : Pool}
    (hok : f.pool.release h = .ok pool) :
    Inv size stream { f with pool, reading := f.reading.erase h.toNat } := by
  obtain ⟨chunk, rfl, hlt, htag, -⟩ := Pool.release_eq_ok hok
  have hreading : chunk ∈ f.reading := by
    obtain ⟨leaked, lost, -, hp, -⟩ := inv.supplied
    exact (hp.mem_iff (.busy, true) chunk).mpr ⟨hlt, htag⟩
  obtain ⟨pool', hok', hs, hwaiting, hframe⟩ := inv.supplied.release hreading
  obtain rfl : pool = pool' := Except.ok.inj (hok.symm.trans hok')
  exact
    { inv with
      supplied := hs
      calm := ⟨rfl, rfl, inv.calm.source_open, hframe.closed_eq.trans inv.calm.pool_open⟩
      not_sealed := hframe.sealed_eq.trans inv.not_sealed
      depth_pos := hframe.depth_eq ▸ inv.depth_pos
      published_eq := by rw [hwaiting, inv.published_eq] }

theorem Inv.step (inv : Inv size stream f) (hmove : Move f f') : Inv size stream f' := by
  cases hmove with
  | @deliver piece rest hpending hpiece =>
    have hs := inv.supplied
    rw [hpending] at hs
    exact
      { inv with
        supplied := hs.feed hpiece
        calm := ⟨rfl, rfl, inv.calm.source_open, inv.calm.pool_open⟩
        stream_eq := by rw [List.append_assoc, ← hpending, inv.stream_eq] }
  | finish hpending =>
    have hs := inv.supplied
    rw [hpending] at hs
    exact
      { inv with
        supplied := hpending ▸ hs.finish
        calm := ⟨rfl, rfl, inv.calm.source_open, inv.calm.pool_open⟩ }
  | read hreads => exact inv.read hreads
  | acquire hmem => exact inv.acquire hmem
  | release hok => exact inv.release hok

theorem Inv.reach (inv : Inv size stream f) (hreach : Reach f f') : Inv size stream f' := by
  induction hreach with
  | refl => exact inv
  | tail _ hmove ih => exact ih.step hmove

theorem start_inv {depth size : Int} {pool : Pool} (hcreate : Pool.create depth size = .ok pool)
    (maxRead : Nat) (stream : List UInt8) : Inv size.toNat stream (start pool maxRead stream) := by
  obtain ⟨-, hsize, -⟩ := Pool.create_eq_ok hcreate
  obtain ⟨hplaced, hchunk, hdepth, hsealed, hclosed, hbusy⟩ := Pool.placed_create hcreate
  have hsupply : Supply size.toNat stream stream True { phase := .start } { maxRead } pool 0 []
      [] :=
    { started := by simp
      tail_eq := .inl rfl
      stream_eq := by simp [Pool.waiting, hbusy, Reader.ahead]
      active := fun _ => ⟨rfl, rfl⟩
      ended := by simp [Reader.Phase.isOver]
      got_le := by simp
      records_eq := by simp [hbusy]
      stopped := by simp
      returned := by simp }
  exact
    { supplied := ⟨[], [], hsupply, hplaced, hchunk⟩
      calm := ⟨rfl, rfl, rfl, hclosed⟩
      not_sealed := hsealed
      size_pos := by omega
      depth_pos := hdepth
      stream_eq := rfl
      published_eq := by simp [start, Pool.waiting, hbusy]
      acquired_eq := by simp [start]
      acquired_size := by simp [start] }

/-! ## What follows -/

theorem Inv.published_size (inv : Inv size stream f) :
    ∀ chunk ∈ f.published, chunk.length = size := by
  obtain ⟨leaked, lost, -, hp, hsize⟩ := inv.supplied
  intro chunk hchunk
  rw [inv.published_eq] at hchunk
  rcases List.mem_append.mp hchunk with hold | hwaiting
  · exact inv.acquired_size chunk hold
  · obtain ⟨h, hbusy, rfl⟩ := List.mem_map.mp hwaiting
    rw [hp.length_eq h (hp.lt_depth (a := (.busy, false)) hbusy), hsize]

/-- The stream is what has been published, then what is on the line, then what is still to come. -/
theorem Inv.line (inv : Inv size stream f) {leaked : List Nat} {lost : List UInt8}
    (hs : Supply size stream f.pending True f.reader f.source f.pool f.acquired.length leaked
      lost) :
    stream = f.published.flatten ++ (f.reader.ahead f.source f.pool f.pending ++ lost) := by
  calc stream = stream.take (size * f.acquired.length) ++ stream.drop (size * f.acquired.length) :=
        (List.take_append_drop _ _).symm
    _ = f.acquired.flatten ++ (f.pool.waiting.flatten ++
          f.reader.ahead f.source f.pool f.pending ++ lost) := by
        rw [inv.acquired_eq, hs.stream_eq]
    _ = f.published.flatten ++ (f.reader.ahead f.source f.pool f.pending ++ lost) := by
        rw [inv.published_eq, List.flatten_append]
        simp only [List.append_assoc]

/-- What has been delivered and not published makes up the slices that are still to come. -/
theorem Inv.slices_delivered (inv : Inv size stream f) {leaked : List Nat} {held lost : List UInt8}
    (hs : Supply size stream f.pending True f.reader f.source f.pool f.acquired.length leaked lost)
    (hheld : f.reader.ahead f.source f.pool f.pending ++ lost = held ++ f.pending) :
    Stream.slices size f.delivered = f.published ++ Stream.slices size held := by
  have hstream := inv.line hs
  rw [hheld, ← List.append_assoc, ← inv.stream_eq] at hstream
  rw [List.append_cancel_right hstream,
    Stream.slices_flatten_append inv.size_pos inv.published_size]

theorem Inv.waits (inv : Inv size stream f) (hnil : f.reader.next {} f.source f.pool = []) :
    (∃ failure, f.reader.phase = .returned failure) ∨
      (f.reader.phase = .acquire ∧ f.pool.free = [] ∧ (f.pool.busy ≠ [] ∨ f.reading ≠ [])) ∨
      (f.source.tail = .opened ∧ f.published = Stream.slices size f.delivered) := by
  obtain ⟨leaked, lost, hs, hp, hsize⟩ := inv.supplied
  rcases Reader.waits hnil hs.started with hreturned | ⟨hphase, hfree, -⟩ |
    ⟨⟨h, got, hphase⟩, htail, -⟩
  · exact .inl hreturned
  · refine .inr (.inl ⟨hphase, hfree, ?_⟩)
    by_cases hbusy : f.pool.busy = []
    · obtain ⟨-, rfl⟩ := hs.active (by simp [hphase, Reader.Phase.isOver])
      rcases hp.held_of_empty inv.depth_pos hfree hbusy with hwriting | hreading
      · simp [hphase, Reader.Phase.hand] at hwriting
      · exact .inr hreading
    · exact .inl hbusy
  · refine .inr (.inr ⟨htail, ?_⟩)
    obtain ⟨hgot, hqueue⟩ := Reader.fill_waits hnil hphase
    obtain ⟨rfl, -⟩ := hs.active (by simp [hphase, Reader.Phase.isOver])
    -- Less than a chunk is in the reader's hands.
    have hheld : f.reader.ahead f.source f.pool f.pending ++ [] =
        (f.pool.slot h).bytes.take got ++ f.pending := by
      simp [Reader.ahead, hphase, hqueue]
    have hshort : ((f.pool.slot h).bytes.take got).length < size := by
      rw [List.length_take]
      omega
    rw [inv.slices_delivered hs hheld, Stream.slices_eq_nil hshort, List.append_nil]

/-- What the reader has done and says when it returns. -/
structure Done (size : Nat) (stream : List UInt8) (f : Framing) (failure : Option Error) :
    Prop where
  ended : f.source.tail = .ended .finished
  delivered_eq : f.delivered = stream
  published_eq : f.published = Stream.slices size stream
  failure_eq : failure = if size ∣ stream.length then none
    else some (.shortRecord (stream.length % size) size (.ofNat (stream.length / size)))

theorem Inv.done (inv : Inv size stream f) {failure : Option Error}
    (hphase : f.reader.phase = .returned failure) : Done size stream f failure := by
  obtain ⟨leaked, lost, hs, hplaced⟩ := inv.supplied
  have hended := hs.ended (by simp [hphase, Reader.Phase.isOver]) trivial
  have hpending : f.pending = [] := by
    rcases hs.tail_eq with hopen | ⟨-, hpending⟩
    · simp [hopen] at hended
    · exact hpending
  have hdelivered : f.delivered = stream := by
    rw [← inv.stream_eq, hpending, List.append_nil]
  have hheld : f.reader.ahead f.source f.pool f.pending ++ lost = lost ++ f.pending := by
    simp [Reader.ahead, hphase, hpending]
  have hslices := inv.slices_delivered hs hheld
  rw [hdelivered, Stream.slices_eq_nil (hs.returned failure hphase trivial).1, List.append_nil]
    at hslices
  have hle : f.acquired.length ≤ stream.length / size := by
    rw [← Stream.length_slices, hslices, inv.published_eq, List.length_append]
    omega
  exact ⟨hended, hdelivered, hslices.symm, (inv.supplied.returned hphase trivial hle).2⟩

/-- What can be said at all times about the chunks of a stream. -/
structure Framed (size : Nat) (stream : List UInt8) (f : Framing) : Prop where
  stream_eq : f.delivered ++ f.pending = stream
  /-- The slices of the stream are published in order, each once. -/
  published_of_stream : f.published <+: Stream.slices size stream
  /-- A slice is published only when all of it has been delivered. -/
  published_of_delivered : f.published <+: Stream.slices size f.delivered
  /-- The consumer finds in a chunk what was published. -/
  acquired_eq : f.acquired ++ f.pool.waiting = f.published
  records_eq : f.reader.records + (if f.reader.phase = .count then 1 else 0) =
    .ofNat f.published.length
  done : ∀ failure, f.reader.phase = .returned failure → Done size stream f failure
  /-- A reader that cannot move has returned, or waits for the consumer or for bytes. -/
  waits : f.reader.next {} f.source f.pool = [] →
    (∃ failure, f.reader.phase = .returned failure) ∨
      (f.reader.phase = .acquire ∧ f.pool.free = [] ∧ (f.pool.busy ≠ [] ∨ f.reading ≠ [])) ∨
      (f.source.tail = .opened ∧ f.published = Stream.slices size f.delivered)
  /-- Without new bytes it gets there. -/
  ends : ¬ Endless Reads f

theorem Inv.ends (inv : Inv size stream f) : ¬ Endless Reads f := by
  refine not_endless (fun f : Framing => 12 * f.source.queue.length + f.reader.phase.distance)
    (fun _ _ (inv : Inv size stream _) hreads => inv.read hreads) ?_ inv
  rintro f _ inv ⟨reader, source, pool, hmem, rfl⟩
  exact (inv.supplied.calm_next inv.size_pos inv.calm inv.not_sealed hmem).2

theorem Inv.framed (inv : Inv size stream f) : Framed size stream f := by
  obtain ⟨leaked, lost, hs, hplaced⟩ := inv.supplied
  obtain ⟨held, hheld⟩ := hs.exists_held trivial
  have hstream := congrArg (Stream.slices size) (inv.line hs)
  rw [Stream.slices_flatten_append inv.size_pos inv.published_size] at hstream
  exact
    { stream_eq := inv.stream_eq
      published_of_stream := ⟨_, hstream.symm⟩
      published_of_delivered := ⟨_, (inv.slices_delivered hs hheld).symm⟩
      acquired_eq := inv.published_eq.symm
      records_eq := by
        rw [hs.records_eq, inv.published_eq, List.length_append, Pool.waiting, List.length_map]
      done := fun _ => inv.done
      waits := inv.waits
      ends := inv.ends }

/-- For every pool that can be made and every stream, in whatever pieces it is delivered and
whatever the consumer does: the chunks that are published are the slices of the stream, and the
reader says at the end whether bytes are left over. -/
theorem framed_of_reach (depth size : Int) (pool : Pool) (maxRead : Nat) (stream : List UInt8)
    (hcreate : Pool.create depth size = .ok pool) (f : Framing)
    (hreach : Reach (start pool maxRead stream) f) : Framed size.toNat stream f :=
  ((start_inv hcreate maxRead stream).reach hreach).framed

theorem reads_of_next {reader : Reader} {source : Source} {pool : Pool}
    {others : List (Reader × Source × Pool)}
    (hnext : f.reader.next {} f.source f.pool = (reader, source, pool) :: others) :
    f.Reads (f.advance reader source pool) :=
  ⟨reader, source, pool, hnext ▸ List.mem_cons_self, rfl⟩

/-- A single chunk of two bytes, and a stream of three in two pieces that do not fit it.  The byte
left over goes on top of old bytes, and is reported. -/
theorem framed_of_reach_recycled_chunk :
    ∃ pool f, Pool.create 1 2 = .ok pool ∧ Reach (start pool 0 [1, 2, 3]) f ∧
      f.reader.phase = .returned (some (.shortRecord 1 2 1)) ∧ f.pool.bytes 0 = .ok [3, 2] ∧
      f.acquired = [[1, 2]] ∧ Framed 2 [1, 2, 3] f := by
  have hreach : Reach
      (start { size := 2, slots := #[{ bytes := [0, 0] }], free := [0] } 0 [1, 2, 3])
      { reader := { phase := .returned (some (.shortRecord 1 2 1)), records := 1 }
        source := { tail := .ended .finished }
        pool := { size := 2, slots := #[{ bytes := [3, 2], held := true }], free := [] }
        pending := [], delivered := [1, 2, 3], published := [[1, 2]], acquired := [[1, 2]] } := by
    refine .head (.deliver (show _ = [1] ++ [2, 3] from rfl) (by decide)) ?_
    iterate 4 refine .head (.read (reads_of_next rfl)) ?_
    refine .head (.deliver (show _ = [2, 3] ++ [] from rfl) (by decide)) ?_
    refine .head (.finish rfl) ?_
    iterate 6 refine .head (.read (reads_of_next rfl)) ?_
    refine .head (.acquire (List.mem_singleton.mpr rfl)) ?_
    refine .head (.release (h := 0) rfl) ?_
    iterate 3 refine .head (.read (reads_of_next rfl)) ?_
    exact .single (.read (reads_of_next rfl))
  exact ⟨_, _, rfl, hreach, rfl, rfl, rfl, framed_of_reach 1 2 _ 0 _ rfl _ hreach⟩

end Framing

end Cosim

import Cosim.Proofs.Pool
import Cosim.Proofs.Stream
import Cosim.Reader

/-!
# What the reader owes the assembler

The reader moves a byte stream into the busy queue of a pool, in chunks of the
size that the pool has.  Wherever it stands, the stream from the next record of
the assembler on is: the chunks in the busy queue, then what is ahead of them in
the reader's chunk and in the source.  A step of the reader moves bytes along
this line and changes nothing about it.

* `Reader.ahead` are the bytes that have not reached the busy queue.
* `Supply` is the invariant.  Bytes leave the line only when the reader stops; in
  a calm device, one that nobody stops, these are less than a record, and they
  decide what the reader returns.
* `Supply.next` is its step lemma.
-/

namespace Cosim

namespace Reader

/-- The chunk that the reader fills. -/
def Phase.hand : Phase → List Nat
  | .fill h _ | .publish h => [h]
  | _ => []

/-- The reader reads no more. -/
def Phase.isOver : Phase → Bool
  | .stopped _ _ | .returned _ => true
  | _ => false

/-- The bytes that have not reached the busy queue and still will: in the
reader's chunk, in the source, and still to come. -/
def ahead (r : Reader) (source : Source) (pool : Pool) (pending : List UInt8) : List UInt8 :=
  match r.phase with
  | .fill h got => (pool.slot h).bytes.take got ++ (source.queue ++ pending)
  | .publish h => (pool.slot h).bytes ++ (source.queue ++ pending)
  | .stopped _ _ | .returned _ => []
  | _ => source.queue ++ pending

/-- Nobody has told the reader to stop. -/
structure Calm (signals : Signals) (source : Source) (pool : Pool) : Prop where
  running : signals.running = true
  cancelled : signals.cancelled = false
  source_open : source.isClosed = false
  pool_open : pool.isClosed = false

end Reader

/-- The stream from the assembler's next record on is what waits in the busy
queue, what is ahead of it, and what the reader lost when it stopped. -/
structure Supply (size : Nat) (stream pending : List UInt8) (calm : Prop) (r : Reader)
    (source : Source) (pool : Pool) (acquired : Nat) (leaked : List Nat) (lost : List UInt8) :
    Prop where
  started : r.phase ≠ .idle
  tail_eq : source.tail = .opened ∨ source.tail = .ended .finished ∧ pending = []
  stream_eq : stream.drop (size * acquired) =
    pool.waiting.flatten ++ r.ahead source pool pending ++ lost
  active : r.phase.isOver = false → lost = [] ∧ leaked = []
  ended : r.phase.isOver = true → calm → source.tail = .ended .finished
  got_le : ∀ h got, r.phase = .fill h got → got ≤ size
  records_eq : r.records + (if r.phase = .count then 1 else 0) =
    .ofNat (acquired + pool.busy.length)
  stopped : ∀ got how, r.phase = .stopped got how → calm →
    how = .finished ∧ lost.length = got ∧ got < size
  returned : ∀ f, r.phase = .returned f → calm →
    lost.length < size ∧
      f = if lost = [] then none else some (.shortRecord lost.length size r.records)

/-- The reader keeps the line, and its chunks are where its phase says. -/
def Supplied (size : Nat) (stream pending : List UInt8) (calm : Prop) (reading : List Nat)
    (acquired : Nat) (r : Reader) (source : Source) (pool : Pool) : Prop :=
  ∃ leaked lost, Supply size stream pending calm r source pool acquired leaked lost ∧
    pool.Placed (r.phase.hand ++ leaked) reading ∧ pool.size = size

namespace Source

variable {source source' : Source} {want : Nat} {data : List UInt8} {how : SourceEnd}

/-- A read takes bytes from the front of the queue, at least one and no more
than were asked for. -/
theorem read_bytes (hread : source.read want = some (.bytes data source'))
    (htail : source.tail ≠ .zeros) (hwant : 0 < want) :
    source.queue = data ++ source'.queue ∧ 0 < data.length ∧ data.length ≤ want ∧
      source'.tail = source.tail ∧ source'.isClosed = source.isClosed := by
  unfold read at hread
  split at hread
  · simp at hread
  dsimp only at hread
  split at hread
  · split at hread <;> simp_all
  · rename_i byte rest hqueue
    simp only [Option.some.injEq, Chunk.bytes.injEq] at hread
    obtain ⟨rfl, rfl⟩ := hread
    refine ⟨(List.take_append_drop _ _).symm, ?_, ?_, rfl, rfl⟩
    · rw [hqueue, List.length_take, List.length_cons]
      split <;> omega
    · rw [List.length_take]
      split <;> omega

/-- A read stops only at the end of the bytes or on a closed source. -/
theorem read_stopped (hread : source.read want = some (.stopped how)) :
    source.isClosed = true ∨ source.queue = [] ∧ source.tail = .ended how := by
  unfold read at hread
  split at hread
  · left
    assumption
  dsimp only at hread
  split at hread
  · split at hread <;> simp_all
  · simp at hread

end Source

namespace Supply

variable {size : Nat} {stream pending : List UInt8} {calm : Prop} {signals : Signals}
  {r r' : Reader} {source source' : Source} {pool pool' : Pool} {acquired : Nat}
  {leaked reading : List Nat} {lost : List UInt8} {h got : Nat}

/-- What a step of the reader leaves for the others: the dimensions of the pool,
the chunks that are being read, and how the source ends. -/
structure Keeps (reading : List Nat) (source source' : Source) (pool pool' : Pool) : Prop where
  frame : pool.Frame pool'
  bytes_eq : ∀ h ∈ reading, (pool'.slot h).bytes = (pool.slot h).bytes
  closed_eq : source'.isClosed = source.isClosed
  tail_eq : source'.tail = source.tail

theorem Keeps.refl (reading : List Nat) (source : Source) (pool : Pool) :
    Keeps reading source source pool pool :=
  ⟨⟨rfl, rfl, rfl, rfl⟩, fun _ _ => rfl, rfl, rfl⟩

/-- The reader moves on without touching source or pool. -/
theorem goto (hs : Supply size stream pending calm r source pool acquired leaked lost)
    {phase : Reader.Phase}
    (hphase : phase ≠ .idle ∧ phase.isOver = false ∧ phase ≠ .count ∧ ∀ h got, phase ≠ .fill h got)
    (hcount : r.phase ≠ .count) (hover : r.phase.isOver = false)
    (hahead : (r.goto phase).ahead source pool pending = r.ahead source pool pending) :
    Supply size stream pending calm (r.goto phase) source pool acquired leaked lost where
  started := hphase.1
  tail_eq := hs.tail_eq
  stream_eq := by rw [hs.stream_eq, hahead]
  active := fun _ => hs.active hover
  ended := by simp [Reader.goto, hphase.2.1]
  got_le := fun h got hfill => absurd hfill (hphase.2.2.2 h got)
  records_eq := by
    have := hs.records_eq
    rw [if_neg hcount] at this
    rw [if_neg (show (r.goto phase).phase ≠ .count from hphase.2.2.1)]
    exact this
  stopped := by
    rintro got how rfl
    simp [Reader.Phase.isOver] at hphase
  returned := by
    rintro f rfl
    simp [Reader.Phase.isOver] at hphase

/-- The reader gives up on what it has not published.  That is an orderly end
only if less than a record is lost. -/
theorem giveUp (hs : Supply size stream pending calm r source pool acquired leaked lost)
    {phase : Reader.Phase} {leaked' : List Nat} (hover : r.phase.isOver = false)
    (hphase : phase.isOver = true) (hcount : r.phase ≠ .count)
    (hended : calm → source.tail = .ended .finished)
    (hstopped : ∀ got how, phase = .stopped got how → calm →
      how = .finished ∧ (r.ahead source pool pending).length = got ∧ got < size)
    (hreturned : ∀ f, phase = .returned f → ¬ calm) :
    Supply size stream pending calm (r.goto phase) source pool acquired leaked'
      (r.ahead source pool pending) where
  started := by
    rintro rfl
    cases hphase
  tail_eq := hs.tail_eq
  stream_eq := by
    have hnone : (r.goto phase).ahead source pool pending = [] := by
      unfold Reader.ahead Reader.goto
      cases phase <;> first | rfl | cases hphase
    rw [hs.stream_eq, hnone, (hs.active hover).1, List.append_nil, List.append_nil]
  active := by
    intro hnot
    rw [show (r.goto phase).phase = phase from rfl, hphase] at hnot
    cases hnot
  ended := fun _ => hended
  got_le := by
    rintro h got rfl
    cases hphase
  records_eq := by
    have := hs.records_eq
    rw [if_neg hcount] at this
    rw [if_neg]
    · exact this
    · rintro rfl
      cases hphase
  stopped := hstopped
  returned := fun f hf hcalm => absurd hcalm (hreturned f hf)

/-- Reading moves bytes from the source into the chunk. -/
theorem fill (hs : Supply size stream pending calm r source pool acquired leaked lost)
    (hp : pool.Placed (r.phase.hand ++ leaked) reading) (hsize : pool.size = size)
    (hphase : r.phase = .fill h got) (hgot : got < pool.size) {data : List UInt8}
    (hread : source.read (pool.size - got) = some (.bytes data source')) :
    Supply size stream pending calm (r.goto (.fill h (got + data.length))) source'
      (pool.write h got data) acquired leaked lost ∧
      (pool.write h got data).Placed ((r.goto (.fill h (got + data.length))).phase.hand ++ leaked)
        reading ∧ Keeps reading source source' pool (pool.write h got data) := by
  have htail : source.tail ≠ .zeros := by
    rcases hs.tail_eq with ht | ⟨ht, -⟩ <;> simp [ht]
  obtain ⟨hqueue, hpos, hle, htail', hclosed⟩ := Source.read_bytes hread htail (by omega)
  have hmem : h ∈ r.phase.hand ++ leaked := by simp [hphase, Reader.Phase.hand]
  have hlt := hp.lt_depth (a := (.free, true)) hmem
  have hlen := hp.length_eq h hlt
  obtain ⟨hplaced, hframe, hwaiting, hothers, hbytes⟩ :=
    hp.write hmem (show got + data.length ≤ _ by omega)
  have hkept : ∀ g ∈ reading, ((pool.write h got data).slot g).bytes = (pool.slot g).bytes := by
    intro g hg
    rw [hothers g]
    rintro rfl
    exact hp.not_mem (a := (.free, true)) hmem (b := (.busy, true)) (by decide) hg
  refine ⟨?_, by simpa [hphase, Reader.Phase.hand, Reader.goto] using hplaced, hframe, hkept,
    hclosed, htail'⟩
  have hahead : (r.goto (.fill h (got + data.length))).ahead source' (pool.write h got data)
      pending = r.ahead source pool pending := by
    have htake : (((pool.write h got data).slot h).bytes).take (got + data.length) =
        (pool.slot h).bytes.take got ++ data := by
      rw [hbytes, List.take_left']
      rw [List.length_append, List.length_take, hlen]
      omega
    simp only [Reader.ahead, Reader.goto, hphase, htake, hqueue, List.append_assoc]
  exact
    { started := by simp [Reader.goto]
      tail_eq := htail' ▸ hs.tail_eq
      stream_eq := by rw [hs.stream_eq, hahead, hwaiting]
      active := fun _ => hs.active (by simp [hphase, Reader.Phase.isOver])
      ended := by simp [Reader.goto, Reader.Phase.isOver]
      got_le := by
        rintro h' got' hfill
        cases hfill
        omega
      records_eq := by
        simpa [Reader.goto, hphase, Pool.write, Pool.updateSlot] using hs.records_eq
      stopped := by simp [Reader.goto]
      returned := by simp [Reader.goto] }

/-- Publishing moves the chunk into the busy queue. -/
theorem publish (hs : Supply size stream pending calm r source pool acquired leaked lost)
    (hp : pool.Placed (r.phase.hand ++ leaked) reading) (hphase : r.phase = .publish h)
    (hopen : pool.isSealed = false ∧ pool.isClosed = false) :
    ∃ pool', pool.publish h = .ok pool' ∧
      Supply size stream pending calm (r.goto .count) source pool' acquired leaked lost ∧
      pool'.Placed ((r.goto .count).phase.hand ++ leaked) reading ∧
      Keeps reading source source pool pool' := by
  obtain ⟨hlost, hleaked⟩ := hs.active (by simp [hphase, Reader.Phase.isOver])
  have hmem : h ∈ r.phase.hand ++ leaked := by simp [hphase, Reader.Phase.hand]
  obtain ⟨pool', hok, hplaced, hframe, -, hbusy, hwaiting, hbytes⟩ := hp.publish hmem hopen
  refine ⟨pool', hok, ?_, ?_, hframe, fun g _ => hbytes g, rfl, rfl⟩
  · exact
      { started := by simp [Reader.goto]
        tail_eq := hs.tail_eq
        stream_eq := by
          rw [hs.stream_eq, hwaiting]
          simp [Reader.ahead, Reader.goto, hphase]
        active := fun _ => ⟨hlost, hleaked⟩
        ended := by simp [Reader.goto, Reader.Phase.isOver]
        got_le := by simp [Reader.goto]
        records_eq := by
          have hrecords := hs.records_eq
          simp only [hphase, reduceCtorEq, if_false] at hrecords
          rw [hbusy, List.length_append, ← Nat.add_assoc, UInt64.ofNat_add, ← hrecords]
          simp [Reader.goto]
        stopped := by simp [Reader.goto]
        returned := by simp [Reader.goto] }
  · simpa [hphase, hleaked, Reader.Phase.hand, Reader.goto] using hplaced

/-- The reader counts what it has published. -/
theorem recount (hs : Supply size stream pending calm r source pool acquired leaked lost)
    (hphase : r.phase = .count) :
    Supply size stream pending calm { phase := .start, records := r.records + 1 } source pool
      acquired leaked lost where
  started := by simp
  tail_eq := hs.tail_eq
  stream_eq := by
    rw [hs.stream_eq]
    simp [Reader.ahead, hphase]
  active := fun _ => hs.active (by simp [hphase, Reader.Phase.isOver])
  ended := by simp [Reader.Phase.isOver]
  got_le := by simp
  records_eq := by simpa [hphase] using hs.records_eq
  stopped := by simp
  returned := by simp

/-- Chunks that change hands behind the reader do not concern it, as long as the
line stays whole. -/
theorem of_pool (hs : Supply size stream pending calm r source pool acquired leaked lost)
    {acquired' : Nat}
    (hline : stream.drop (size * acquired') =
      pool'.waiting.flatten ++ r.ahead source pool pending ++ lost)
    (hcount : acquired' + pool'.busy.length = acquired + pool.busy.length)
    (hbytes : ∀ g, (pool'.slot g).bytes = (pool.slot g).bytes) :
    Supply size stream pending calm r source pool' acquired' leaked lost :=
  { hs with
    stream_eq := by
      rw [hline]
      simp only [Reader.ahead, hbytes]
    records_eq := by
      rw [hcount]
      exact hs.records_eq }

/-- The stream has stopped, and the reader says how. -/
theorem settle (hs : Supply size stream pending calm r source pool acquired leaked lost)
    (hsize : pool.size = size) (hcalm : calm → signals.running = true) {how : SourceEnd}
    (hphase : r.phase = .stopped got how) :
    Supply size stream pending calm (r.goto (.returned
      (if signals.running then Reader.verdict got pool.size r.records how else none))) source pool
      acquired leaked lost where
  started := by simp [Reader.goto]
  tail_eq := hs.tail_eq
  stream_eq := by
    rw [hs.stream_eq]
    simp [Reader.ahead, Reader.goto, hphase]
  active := by simp [Reader.goto, Reader.Phase.isOver]
  ended := fun _ => hs.ended (by simp [hphase, Reader.Phase.isOver])
  got_le := by simp [Reader.goto]
  records_eq := by simpa [Reader.goto, hphase] using hs.records_eq
  stopped := by simp [Reader.goto]
  returned := by
    rintro f hf hc
    obtain ⟨rfl, rfl, hlt⟩ := hs.stopped got how hphase hc
    cases hf
    refine ⟨hlt, ?_⟩
    simp only [hcalm hc, if_true, Reader.verdict, hsize, List.length_eq_zero_iff]
    rfl

end Supply

namespace Supplied

open Supply

variable {size : Nat} {stream pending : List UInt8} {calm : Prop} {signals : Signals}
  {r r' : Reader} {source source' : Source} {pool pool' : Pool} {acquired : Nat}
  {reading : List Nat} {h got : Nat}

/-- The reader moves on without touching source or pool. -/
theorem goto {phase : Reader.Phase}
    (hs : Supplied size stream pending calm reading acquired r source pool)
    (hphase : phase ≠ .idle ∧ phase.isOver = false ∧ phase ≠ .count ∧ ∀ h got, phase ≠ .fill h got)
    (hcount : r.phase ≠ .count) (hover : r.phase.isOver = false)
    (hhand : phase.hand = r.phase.hand)
    (hahead : (r.goto phase).ahead source pool pending = r.ahead source pool pending) :
    Supplied size stream pending calm reading acquired (r.goto phase) source pool := by
  obtain ⟨leaked, lost, hs, hp, hsize⟩ := hs
  refine ⟨leaked, lost, hs.goto hphase hcount hover hahead, ?_, hsize⟩
  rw [show (r.goto phase).phase = phase from rfl, hhand]
  exact hp

/-- The reader ends before the stream does. -/
theorem leave (hs : Supplied size stream pending calm reading acquired r source pool)
    (hover : r.phase.isOver = false) (hcount : r.phase ≠ .count) (hcalm : ¬ calm) :
    Supplied size stream pending calm reading acquired (r.goto (.returned none)) source pool := by
  obtain ⟨leaked, lost, hs, hp, hsize⟩ := hs
  obtain ⟨-, rfl⟩ := hs.active hover
  refine ⟨r.phase.hand, _, hs.giveUp hover rfl hcount (fun hc => absurd hc hcalm) ?_
    fun _ _ => hcalm, ?_, hsize⟩
  · intro got how hphase
    cases hphase
  · simpa [Reader.goto, Reader.Phase.hand] using hp

theorem acquire (hs : Supplied size stream pending calm reading acquired r source pool)
    (hphase : r.phase = .acquire) {rest : List Nat} (hfree : pool.free = h :: rest)
    (hpool : pool' = { pool with free := rest }.updateSlot h fun s => { s with held := true }) :
    Supplied size stream pending calm reading acquired (r.goto (.fill h 0)) source pool' ∧
      Keeps reading source source pool pool' := by
  obtain ⟨leaked, lost, hs, hp, hsize⟩ := hs
  obtain ⟨rfl, rfl⟩ := hs.active (by simp [hphase, Reader.Phase.isOver])
  obtain ⟨hplaced, hframe, -, hwaiting, hbytes⟩ := hp.acquireFree hfree hpool
  have hbusy : pool'.busy = pool.busy := by rw [hpool]; rfl
  refine ⟨⟨[], [], ?_, ?_, hframe.size_eq.trans hsize⟩, hframe, fun h _ => hbytes h, rfl, rfl⟩
  · exact
      { started := by simp [Reader.goto]
        tail_eq := hs.tail_eq
        stream_eq := by
          rw [hs.stream_eq, hwaiting]
          simp [Reader.ahead, Reader.goto, hphase]
        active := fun _ => ⟨rfl, rfl⟩
        ended := by simp [Reader.goto, Reader.Phase.isOver]
        got_le := by
          rintro h' got' hfill
          cases hfill
          exact Nat.zero_le _
        records_eq := by simpa [Reader.goto, hphase, hbusy] using hs.records_eq
        stopped := by simp [Reader.goto]
        returned := by simp [Reader.goto] }
  · simpa [hphase, Reader.goto, Reader.Phase.hand] using hplaced

/-- The source has no more bytes for the chunk in hand. -/
theorem stop (hs : Supplied size stream pending (Reader.Calm signals source pool) reading acquired r
    source pool) (hphase : r.phase = .fill h got) (hgot : got < pool.size) {how : SourceEnd}
    (hread : source.read (pool.size - got) = some (.stopped how)) :
    Supplied size stream pending (Reader.Calm signals source pool) reading acquired
      (r.goto (.stopped got how)) source pool := by
  obtain ⟨leaked, lost, hs, hp, hsize⟩ := hs
  obtain ⟨-, rfl⟩ := hs.active (by simp [hphase, Reader.Phase.isOver])
  have hmem : h ∈ r.phase.hand ++ [] := by simp [hphase, Reader.Phase.hand]
  have hlen := hp.length_eq h (hp.lt_depth (a := (.free, true)) hmem)
  have hended : Reader.Calm signals source pool → source.queue = [] ∧ pending = [] ∧
      source.tail = .ended .finished ∧ how = .finished := by
    intro hcalm
    rcases Source.read_stopped hread with hclosed | ⟨hqueue, htail⟩
    · simp [hcalm.source_open] at hclosed
    · rcases hs.tail_eq with hopen | ⟨hended, hpending⟩
      · simp [hopen] at htail
      · rw [hended, SourceTail.ended.injEq] at htail
        exact ⟨hqueue, hpending, hended, htail.symm⟩
  refine ⟨r.phase.hand, _, hs.giveUp (by simp [hphase, Reader.Phase.isOver]) rfl (by simp [hphase])
    (fun hcalm => (hended hcalm).2.2.1) ?_ (fun f hf => by cases hf), ?_, hsize⟩
  · rintro got' how' hstopped hcalm
    cases hstopped
    obtain ⟨hqueue, hpending, -, hhow⟩ := hended hcalm
    refine ⟨hhow, ?_, by omega⟩
    simp only [Reader.ahead, hphase, hqueue, hpending, List.append_nil, List.length_take]
    omega
  · simpa [Reader.goto, Reader.Phase.hand] using hp

/-- A step of the reader moves bytes along the line. -/
theorem next
    (hs : Supplied size stream pending (Reader.Calm signals source pool) reading acquired r source
      pool) (hsealed : pool.isSealed = false)
    (hmem : (r', source', pool') ∈ r.next signals source pool) :
    Supplied size stream pending (Reader.Calm signals source pool) reading acquired r' source'
      pool' ∧ Keeps reading source source' pool pool' := by
  unfold Reader.next at hmem
  cases hphase : r.phase with
  | idle | returned => simp [hphase] at hmem
  | start =>
    simp only [hphase, List.mem_singleton, Prod.mk.injEq] at hmem
    obtain ⟨rfl, rfl, rfl⟩ := hmem
    refine ⟨?_, .refl _ _ _⟩
    split
    · exact hs.goto (by simp [Reader.Phase.isOver]) (by simp [hphase])
        (by simp [hphase, Reader.Phase.isOver]) (by simp [hphase, Reader.Phase.hand])
        (by simp [Reader.ahead, Reader.goto, hphase])
    · rename_i hrun
      exact hs.leave (by simp [hphase, Reader.Phase.isOver]) (by simp [hphase])
        fun hcalm => hrun hcalm.running
  | enter =>
    simp only [hphase, List.mem_singleton, Prod.mk.injEq] at hmem
    obtain ⟨rfl, rfl, rfl⟩ := hmem
    refine ⟨?_, .refl _ _ _⟩
    split
    · rename_i hclosed
      exact hs.leave (by simp [hphase, Reader.Phase.isOver]) (by simp [hphase])
        fun hcalm => by simp [hcalm.pool_open] at hclosed
    · exact hs.goto (by simp [Reader.Phase.isOver]) (by simp [hphase])
        (by simp [hphase, Reader.Phase.isOver]) (by simp [hphase, Reader.Phase.hand])
        (by simp [Reader.ahead, Reader.goto, hphase])
  | acquire =>
    simp only [hphase, List.mem_append, List.mem_map] at hmem
    rcases hmem with ⟨o, ho, heq⟩ | hcancelled
    · rcases Pool.mem_freeOutcomes.mp ho with ⟨hclosed, rfl⟩ | ⟨h, rest, hfree, rfl⟩
      · cases heq
        exact ⟨hs.leave (by simp [hphase, Reader.Phase.isOver]) (by simp [hphase])
          fun hcalm => by simp [hcalm.pool_open] at hclosed, .refl _ _ _⟩
      · cases heq
        exact hs.acquire hphase hfree rfl
    · split at hcancelled
      · rename_i hsignal
        simp only [List.mem_singleton, Prod.mk.injEq] at hcancelled
        obtain ⟨rfl, rfl, rfl⟩ := hcancelled
        exact ⟨hs.leave (by simp [hphase, Reader.Phase.isOver]) (by simp [hphase])
          fun hcalm => by simp [hcalm.cancelled] at hsignal, .refl _ _ _⟩
      · simp at hcancelled
  | fill h got =>
    simp only [hphase] at hmem
    split at hmem
    · rename_i hfull
      simp only [List.mem_singleton, Prod.mk.injEq] at hmem
      obtain ⟨rfl, rfl, rfl⟩ := hmem
      refine ⟨?_, .refl _ _ _⟩
      refine hs.goto (by simp [Reader.Phase.isOver]) (by simp [hphase])
        (by simp [hphase, Reader.Phase.isOver]) (by simp [hphase, Reader.Phase.hand]) ?_
      obtain ⟨leaked, lost, hs, hp, hsize⟩ := hs
      have hin : h ∈ r.phase.hand ++ leaked := by simp [hphase, Reader.Phase.hand]
      have hlen := hp.length_eq h (hp.lt_depth (a := (.free, true)) hin)
      simp only [Reader.ahead, Reader.goto, hphase]
      rw [List.take_of_length_le (by omega)]
    · rename_i hgot
      split at hmem
      · simp at hmem
      · rename_i data source₁ hread
        simp only [List.mem_singleton, Prod.mk.injEq] at hmem
        obtain ⟨rfl, rfl, rfl⟩ := hmem
        obtain ⟨leaked, lost, hs, hp, hsize⟩ := hs
        obtain ⟨hs', hp', hkeeps⟩ := hs.fill hp hsize hphase (by omega) hread
        exact ⟨⟨leaked, lost, hs', hp', hsize⟩, hkeeps⟩
      · rename_i how hread
        simp only [List.mem_singleton, Prod.mk.injEq] at hmem
        obtain ⟨rfl, rfl, rfl⟩ := hmem
        exact ⟨hs.stop hphase (by omega) hread, .refl _ _ _⟩
  | stopped got how =>
    simp only [hphase, List.mem_singleton, Prod.mk.injEq] at hmem
    obtain ⟨rfl, rfl, rfl⟩ := hmem
    obtain ⟨leaked, lost, hs, hp, hsize⟩ := hs
    refine ⟨⟨leaked, lost, hs.settle hsize (fun hcalm => hcalm.running) hphase, ?_, hsize⟩,
      .refl _ _ _⟩
    simpa [hphase, Reader.goto, Reader.Phase.hand] using hp
  | publish h =>
    simp only [hphase] at hmem
    cases hclosed : pool.isClosed with
    | false =>
      obtain ⟨leaked, lost, hs, hp, hsize⟩ := hs
      obtain ⟨pool₁, hok, hs', hp', hkeeps⟩ := hs.publish hp hphase ⟨hsealed, hclosed⟩
      simp only [hok, List.mem_singleton, Prod.mk.injEq] at hmem
      obtain ⟨rfl, rfl, rfl⟩ := hmem
      exact ⟨⟨leaked, lost, hs', hp', hkeeps.frame.size_eq.trans hsize⟩, hkeeps⟩
    | true =>
      have hover := hs.leave (by simp [hphase, Reader.Phase.isOver]) (by simp [hphase])
        fun hcalm => by simp [hcalm.pool_open] at hclosed
      obtain ⟨leaked, lost, hs, hp, hsize⟩ := hs
      have hin : h ∈ r.phase.hand ++ leaked := by simp [hphase, Reader.Phase.hand]
      simp only [hp.publish_closed hin (.inr hclosed), List.mem_singleton, Prod.mk.injEq] at hmem
      obtain ⟨rfl, rfl, rfl⟩ := hmem
      exact ⟨hover, .refl _ _ _⟩
  | count =>
    simp only [hphase, List.mem_singleton, Prod.mk.injEq] at hmem
    obtain ⟨rfl, rfl, rfl⟩ := hmem
    obtain ⟨leaked, lost, hs, hp, hsize⟩ := hs
    refine ⟨⟨leaked, lost, hs.recount hphase, ?_, hsize⟩, .refl _ _ _⟩
    simpa [hphase, Reader.Phase.hand] using hp

/-! ## What others do to the line -/

/-- The line does not depend on whether source and pool have been closed. -/
theorem reflag {calm' : Prop}
    (hs : Supplied size stream pending calm reading acquired r source pool)
    (isSealed isClosed isClosed' : Bool) (himp : calm' → calm) :
    Supplied size stream pending calm' reading acquired r { source with isClosed := isClosed' }
      { pool with isSealed, isClosed } := by
  obtain ⟨leaked, lost, hs, hp, hsize⟩ := hs
  refine ⟨leaked, lost, ?_, ⟨hp.nodup, hp.mem_iff, hp.count_eq, hp.length_eq⟩, hsize⟩
  exact
    { started := hs.started
      tail_eq := hs.tail_eq
      stream_eq := hs.stream_eq
      active := hs.active
      ended := fun hover hcalm => hs.ended hover (himp hcalm)
      got_le := hs.got_le
      records_eq := hs.records_eq
      stopped := fun got how hphase hcalm => hs.stopped got how hphase (himp hcalm)
      returned := fun f hphase hcalm => hs.returned f hphase (himp hcalm) }

theorem imp {calm' : Prop} (hs : Supplied size stream pending calm reading acquired r source pool)
    (himp : calm' → calm) : Supplied size stream pending calm' reading acquired r source pool :=
  hs.reflag pool.isSealed pool.isClosed source.isClosed himp

/-- The hardware delivers some bytes. -/
theorem feed {piece rest : List UInt8} (hpos : piece ≠ [])
    (hs : Supplied size stream (piece ++ rest) calm reading acquired r source pool) :
    Supplied size stream rest calm reading acquired r (source.feed piece) pool := by
  obtain ⟨leaked, lost, hs, hp, hsize⟩ := hs
  have hopen : source.tail = .opened := by
    rcases hs.tail_eq with hopen | ⟨-, hnil⟩
    · exact hopen
    · simp [hpos] at hnil
  refine ⟨leaked, lost, { hs with tail_eq := .inl hopen, stream_eq := ?_, ended := hs.ended }, hp,
    hsize⟩
  rw [hs.stream_eq]
  simp [Reader.ahead, Source.feed]

/-- The hardware comes to its end. -/
theorem finish (hs : Supplied size stream [] calm reading acquired r source pool) :
    Supplied size stream [] calm reading acquired r (source.finish .finished) pool := by
  obtain ⟨leaked, lost, hs, hp, hsize⟩ := hs
  exact ⟨leaked, lost, { hs with tail_eq := .inr ⟨rfl, rfl⟩, ended := fun _ _ => rfl }, hp, hsize⟩

/-- The oldest chunk of the busy queue holds the next bytes of the stream. -/
theorem acquireBusy (hs : Supplied size stream pending calm reading acquired r source pool)
    {rest : List Nat} (hbusy : pool.busy = h :: rest)
    (hpool : pool' = { pool with busy := rest }.updateSlot h fun s => { s with held := true }) :
    Supplied size stream pending calm (reading ++ [h]) (acquired + 1) r source pool' ∧
      (pool'.slot h).bytes.length = size ∧
      (∃ after, stream.drop (size * acquired) = (pool'.slot h).bytes ++ after) ∧
      pool.waiting = (pool'.slot h).bytes :: pool'.waiting ∧ pool.Frame pool' := by
  obtain ⟨leaked, lost, hs, hp, hsize⟩ := hs
  have hmem : h ∈ pool.place (r.phase.hand ++ leaked) reading (.busy, false) := by
    simp [Pool.place, hbusy]
  have hlen := hp.length_eq h (hp.lt_depth hmem)
  obtain ⟨hplaced, hframe, -, hrest, hwaiting, hbytes⟩ := hp.acquireBusy hbusy hpool
  have hline := hs.stream_eq
  rw [hwaiting, hbytes, List.flatten_cons, List.append_assoc, List.append_assoc] at hline
  have hsame : (pool.slot h).bytes.length = size := hlen.trans hsize
  refine ⟨⟨leaked, lost, hs.of_pool ?_ ?_ hbytes, hplaced, hframe.size_eq.trans hsize⟩,
    hbytes h ▸ hsame, hbytes h ▸ ⟨_, hline⟩, hwaiting, hframe⟩
  · rw [Nat.mul_add, Nat.mul_one, ← List.drop_drop, hline, ← hsame, List.drop_left,
      List.append_assoc]
  · rw [hrest, hbusy, List.length_cons]
    omega

/-- A chunk that is given back is off the line already. -/
theorem release (hs : Supplied size stream pending calm reading acquired r source pool)
    (hmem : h ∈ reading) :
    ∃ pool', pool.release h = .ok pool' ∧
      Supplied size stream pending calm (reading.erase h) acquired r source pool' ∧
      pool'.waiting = pool.waiting ∧ pool.Frame pool' := by
  obtain ⟨leaked, lost, hs, hp, hsize⟩ := hs
  obtain ⟨pool', hok, hplaced, hframe, -, hbusy, hwaiting, hbytes⟩ := hp.release hmem
  refine ⟨pool', hok, ⟨leaked, lost, hs.of_pool ?_ (by rw [hbusy]) hbytes, hplaced,
    hframe.size_eq.trans hsize⟩, hwaiting, hframe⟩
  rw [hwaiting]
  exact hs.stream_eq

/-- A reader that ends by itself has published every whole record, and says
whether bytes are left over. -/
theorem returned (hs : Supplied size stream pending calm reading acquired r source pool)
    {failure : Option Error} (hphase : r.phase = .returned failure) (hcalm : calm)
    (hle : acquired ≤ stream.length / size) :
    acquired + pool.busy.length = stream.length / size ∧
      failure = if size ∣ stream.length then none
        else some (.shortRecord (stream.length % size) size
          (.ofNat (stream.length / size))) := by
  obtain ⟨leaked, lost, hs, hp, hsize⟩ := hs
  obtain ⟨hlost, hfailure⟩ := hs.returned failure hphase hcalm
  have hlen := congrArg List.length hs.stream_eq
  simp only [Reader.ahead, hphase, List.append_nil, List.length_drop, List.length_append,
    hp.length_waiting, hsize] at hlen
  have hrecords := hs.records_eq
  simp only [hphase, reduceCtorEq, if_false, UInt64.add_zero] at hrecords
  have hpos : 0 < size := by omega
  have hdiv := Nat.div_add_mod stream.length size
  have hmod := Nat.mod_lt stream.length hpos
  have hle' := Nat.mul_le_mul_left size hle
  have hsplit : stream.length = size * (acquired + pool.busy.length) + lost.length := by
    rw [Nat.mul_add]
    omega
  have hcount : acquired + pool.busy.length = stream.length / size := by
    rw [hsplit, Nat.mul_add_div hpos, Nat.div_eq_of_lt hlost, Nat.add_zero]
  have hrest : lost.length = stream.length % size := by
    rw [hsplit, Nat.mul_add_mod, Nat.mod_eq_of_lt hlost]
  refine ⟨hcount, ?_⟩
  rw [hfailure, hrecords, hcount, hrest]
  simp only [← List.length_eq_zero_iff, hrest, Nat.dvd_iff_mod_eq_zero]

end Supplied

end Cosim

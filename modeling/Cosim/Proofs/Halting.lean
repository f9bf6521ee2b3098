import Cosim.Proofs.Liveness

/-!
# What a stop does to the workers

A stop takes four actions: it tells the workers to stop, closes the source, closes the pool
and cancels the context.  Each worker meets them wherever it stands.

* `Reader.Phase.Tame` says that the reader has nothing to report.  Over a stream of whole
  records it never has, because the stop signal comes before the source is closed.
* `Reader.Phase.left` and `Assembler.Phase.left` count the steps that a worker still takes
  once all four actions have been taken.  They do not depend on the stream.
* `Device.Took` is what is to be seen of an action.
-/

namespace Cosim

/-! ## Nothing to report -/

/-- The reader has nothing to report, or will not because it has been told to stop. -/
def Reader.Phase.Tame (signals : Signals) : Reader.Phase → Prop
  | .stopped got how => signals.running = false ∨ got = 0 ∧ how = .finished
  | .returned failure => failure = none
  | _ => True

theorem Reader.Phase.Tame.mono {signals signals' : Signals} {phase : Reader.Phase}
    (ht : phase.Tame signals) (hlow : signals.running = false → signals'.running = false) :
    phase.Tame signals' := by
  cases phase with
  | stopped got how => exact ht.imp_left hlow
  | returned failure => exact ht
  | idle | start | enter | acquire | fill | publish | count => trivial

namespace Supplied

variable {stream pending : List UInt8} {calm : Prop} {reading : List Nat} {acquired : Nat}
  {signals : Signals} {r r' : Reader} {source source' : Source} {pool pool' : Pool}

/-- A read that stops at the end of a stream of whole records stops between two records. -/
theorem stopped_whole {h got : Nat} {how : SourceEnd}
    (hs : Supplied chunkSize stream pending calm reading acquired r source pool)
    (hwhole : chunkSize ∣ stream.length) (hphase : r.phase = .fill h got) (hgot : got < pool.size)
    (hopen : source.isClosed = false)
    (hread : source.read (pool.size - got) = some (.stopped how)) : got = 0 ∧ how = .finished := by
  obtain ⟨leaked, lost, hs, hp, hsize⟩ := hs
  obtain ⟨rfl, -⟩ := hs.active (by simp [hphase, Reader.Phase.isOver])
  rcases Source.read_stopped hread with hclosed | ⟨hqueue, htail⟩
  · simp [hopen] at hclosed
  · rcases hs.tail_eq with hopened | ⟨hended, rfl⟩
    · simp [hopened] at htail
    · rw [hended, SourceTail.ended.injEq] at htail
      refine ⟨?_, htail.symm⟩
      -- The chunk holds what the busy queue leaves of the stream, a number of whole records.
      have hmem : h ∈ r.phase.hand ++ leaked := by simp [hphase, Reader.Phase.hand]
      have hlen := hp.length_eq h (hp.lt_depth (a := (.free, true)) hmem)
      have hline := congrArg List.length hs.stream_eq
      simp only [Reader.ahead, hphase, hqueue, List.append_nil, List.length_drop,
        List.length_append, List.length_take, hp.length_waiting, hlen] at hline
      obtain ⟨n, hn⟩ := hwhole
      rw [hn, hsize, ← Nat.mul_sub, Nat.min_eq_left (by omega)] at hline
      have hdvd : chunkSize ∣ got :=
        (Nat.dvd_add_right (Nat.dvd_mul_right _ _)).mp (hline ▸ Nat.dvd_mul_right _ _)
      exact Nat.eq_zero_of_dvd_of_lt hdvd (hsize ▸ hgot)

/-- Over a stream of whole records, a step of the reader leaves it with nothing to report. -/
theorem tame_next (hs : Supplied chunkSize stream pending calm reading acquired r source pool)
    (hwhole : chunkSize ∣ stream.length)
    (hlowered : source.isClosed = true → signals.running = false) (ht : r.phase.Tame signals)
    (hmem : (r', source', pool') ∈ r.next signals source pool) : r'.phase.Tame signals := by
  unfold Reader.next at hmem
  cases hphase : r.phase with
  | idle | returned => simp [hphase] at hmem
  | start | enter =>
    simp only [hphase, List.mem_singleton, Prod.mk.injEq] at hmem
    obtain ⟨rfl, -, -⟩ := hmem
    simp only [Reader.goto]
    split <;> simp [Reader.Phase.Tame]
  | acquire =>
    simp only [hphase, List.mem_append, List.mem_map] at hmem
    rcases hmem with ⟨o, -, heq⟩ | hcancelled
    · cases o <;> cases heq <;> simp [Reader.goto, Reader.Phase.Tame]
    · split at hcancelled <;> simp_all [Reader.goto, Reader.Phase.Tame]
  | fill h got =>
    simp only [hphase] at hmem
    split at hmem
    · simp_all [Reader.goto, Reader.Phase.Tame]
    · rename_i hmore
      split at hmem
      · simp at hmem
      · simp_all [Reader.goto, Reader.Phase.Tame]
      · rename_i how hread
        simp only [List.mem_singleton, Prod.mk.injEq] at hmem
        obtain ⟨rfl, -, -⟩ := hmem
        show signals.running = false ∨ got = 0 ∧ how = .finished
        by_cases hclosed : source.isClosed = true
        · exact .inl (hlowered hclosed)
        · exact .inr (hs.stopped_whole hwhole hphase (Nat.lt_of_not_le hmore)
            (by simpa using hclosed) hread)
  | stopped got how =>
    simp only [hphase, List.mem_singleton, Prod.mk.injEq] at hmem
    obtain ⟨rfl, -, -⟩ := hmem
    rw [hphase] at ht
    rcases ht with hlow | ⟨rfl, rfl⟩
    · simp [Reader.goto, Reader.Phase.Tame, hlow]
    · simp [Reader.goto, Reader.Phase.Tame, Reader.verdict]
  | publish h =>
    simp only [hphase] at hmem
    obtain ⟨leaked, lost, -, hp, -⟩ := hs
    have hin : h ∈ r.phase.hand ++ leaked := by simp [hphase, Reader.Phase.hand]
    by_cases hopen : pool.isSealed = false ∧ pool.isClosed = false
    · obtain ⟨pool₁, hok, -⟩ := hp.publish hin hopen
      simp_all [Reader.goto, Reader.Phase.Tame]
    · have hover : pool.isSealed = true ∨ pool.isClosed = true := by
        cases hsealed : pool.isSealed <;> cases hclosed : pool.isClosed <;> simp_all
      simp only [hp.publish_closed hin hover, List.mem_singleton, Prod.mk.injEq] at hmem
      obtain ⟨rfl, -, -⟩ := hmem
      rfl
  | count =>
    simp only [hphase, List.mem_singleton, Prod.mk.injEq] at hmem
    obtain ⟨rfl, -, -⟩ := hmem
    trivial

end Supplied

/-! ## The way out -/

/-- The steps that a reader still takes when everything is closed. -/
def Reader.Phase.left : Reader.Phase → Nat
  | .idle | .returned _ => 0
  | .start | .enter | .stopped _ _ | .publish _ => 1
  | .count | .fill _ _ => 2
  | .acquire => 3

/-- The steps that an assembler still takes when everything is closed.  It finishes the
record in its hand. -/
def Assembler.Phase.left : Assembler.Phase → Nat
  | .idle | .returned _ => 0
  | .start | .failed _ => 1
  | .count => 2
  | .deliver => 3
  | .file _ _ => 4
  | .unpack _ _ => 5
  | .claim _ _ => 6
  | .inspect _ => 7
  | .acquire => 8

theorem Reader.Phase.left_le (phase : Reader.Phase) : phase.left ≤ 3 := by
  cases phase <;> simp [left]

theorem Assembler.Phase.left_le (phase : Assembler.Phase) : phase.left ≤ 8 := by
  cases phase <;> simp [left]

/-- When everything is closed, a reader goes straight to its end. -/
theorem Reader.left_lt {signals : Signals} {r r' : Reader} {source source' : Source}
    {pool pool' : Pool} (hlow : signals.running = false) (hsource : source.isClosed = true)
    (hpool : pool.isClosed = true) (hmem : (r', source', pool') ∈ r.next signals source pool) :
    r'.phase.left < r.phase.left := by
  unfold Reader.next at hmem
  cases hphase : r.phase with
  | idle | returned => simp [hphase] at hmem
  | start | enter | stopped | count =>
    simp only [hphase, hlow, hpool, List.mem_singleton, Prod.mk.injEq] at hmem
    obtain ⟨rfl, -, -⟩ := hmem
    simp [Reader.goto, Reader.Phase.left]
  | acquire =>
    simp only [hphase, List.mem_append, List.mem_map] at hmem
    rcases hmem with ⟨o, -, heq⟩ | hcancelled
    · cases o <;> cases heq <;> simp [Reader.goto, Reader.Phase.left]
    · split at hcancelled <;> simp_all [Reader.goto, Reader.Phase.left]
  | fill h got =>
    simp only [hphase, Source.read, hsource, if_true] at hmem
    split at hmem <;> simp_all [Reader.goto, Reader.Phase.left]
  | publish h =>
    simp only [hphase] at hmem
    split at hmem
    · rename_i pool₁ hok
      obtain ⟨-, -, -, -, -, hopen, -⟩ := Pool.publish_eq_ok hok
      simp [hpool] at hopen
    · simp_all [Reader.goto, Reader.Phase.left]
    · simp_all [Reader.goto, Reader.Phase.left]

theorem Assembler.left_releasing {a a' : Assembler} {pool pool' : Pool} {x x' : Exchange} {h : Nat}
    {phase : Phase} {failure : Error → Error} {n : Nat} (hphase : phase.left < n) (hfailed : 1 < n)
    (heq : (a', pool', x') = a.releasing pool x h phase failure) : a'.phase.left < n := by
  unfold Assembler.releasing at heq
  split at heq
  · cases heq
    exact hphase
  · cases heq
    exact hfailed

/-- When everything is closed, an assembler finishes its record and goes to its end. -/
theorem Assembler.left_lt {signals : Signals} {a a' : Assembler} {pool pool' : Pool}
    {x x' : Exchange} (hlow : signals.running = false)
    (hmem : (a', pool', x') ∈ a.next signals pool x) : a'.phase.left < a.phase.left := by
  unfold Assembler.next at hmem
  cases hphase : a.phase with
  | idle | returned => simp [hphase] at hmem
  | start | count | failed =>
    simp only [hphase, hlow, List.mem_singleton, Prod.mk.injEq] at hmem
    obtain ⟨rfl, -, -⟩ := hmem
    simp [Assembler.goto, Phase.left]
  | acquire =>
    simp only [hphase, List.mem_append, List.mem_map] at hmem
    rcases hmem with ⟨o, -, heq⟩ | hcancelled
    · cases o <;> cases heq <;> simp [Assembler.goto, Phase.left]
    · split at hcancelled <;> simp_all [Assembler.goto, Phase.left]
  | inspect h =>
    simp only [hphase] at hmem
    split at hmem
    · rw [List.mem_singleton] at hmem
      exact left_releasing (by simp [Phase.left]) (by simp [Phase.left]) hmem
    · simp only [List.mem_singleton, Prod.mk.injEq] at hmem
      obtain ⟨rfl, -, -⟩ := hmem
      simp only [Assembler.goto]
      split <;> simp [Phase.left]
  | claim h core =>
    simp only [hphase, List.mem_append] at hmem
    rcases hmem with hclaim | hcancelled
    · split at hclaim <;> simp_all [Phase.left]
    · split at hcancelled
      · rw [List.mem_singleton] at hcancelled
        exact left_releasing (by simp [Phase.left]) (by simp [Phase.left]) hcancelled
      · simp at hcancelled
  | unpack h core =>
    simp only [hphase, List.mem_singleton] at hmem
    exact left_releasing (by simp [Phase.left]) (by simp [Phase.left]) hmem
  | file core state =>
    simp only [hphase] at hmem
    split at hmem
    · simp at hmem
    · split at hmem
      · simp_all [Assembler.goto, Phase.left]
      · split at hmem <;> simp_all [Assembler.goto, Phase.left]
  | deliver =>
    simp only [hphase] at hmem
    split at hmem
    · simp at hmem
    · split at hmem <;> simp_all [Phase.left]

namespace Device

/-- The actions of a stop, in the order in which they are taken. -/
def Halt.all : List Halt := [.lower, .closeSource, .closePool, .cancel]

/-- What is to be seen of an action that has been taken. -/
def Took (d : Device) : Halt → Prop
  | .lower => d.signals.running = false
  | .closeSource => d.source.isClosed = true
  | .closePool => d.pool.isClosed = true
  | .cancel => d.signals.cancelled = true

/-- Both workers have returned without an error, and nobody was told of one. -/
structure Finished (d : Device) : Prop where
  reader_returned : d.reader.phase = .returned none
  assembler_returned : d.assembler.phase = .returned none
  reader_done : d.readerExit = .done
  assembler_done : d.assemblerExit = .done
  exchange_sealed : d.exchange.isSealed = true
  failures_eq : d.failures = []

variable {cores : Nat} {stream pending : List UInt8} {d d' : Device} {h : Handover} {action : Halt}

/-- The steps of its own that the reader still takes once everything is closed. -/
def readerLeft (d : Device) : Nat := d.reader.phase.left + d.readerExit.rank

/-- The steps of its own that the assembler still takes once everything is closed. -/
def assemblerLeft (d : Device) : Nat := d.assembler.phase.left + d.assemblerExit.rank

theorem readerLeft_lt (htook : ∀ action, d.Took action) (hnext : d' ∈ d.readerNext) :
    d'.readerLeft < d.readerLeft ∧ d'.assemblerLeft = d.assemblerLeft := by
  rcases mem_readerNext hnext with ⟨r, s, p, hmem, rfl⟩ |
    ⟨failure, -, ⟨hpending, rfl⟩ | ⟨hclosing, rfl⟩⟩
  · have hlt := Reader.left_lt (htook .lower) (htook .closeSource) (htook .closePool) hmem
    exact ⟨Nat.add_lt_add_right hlt _, rfl⟩
  · exact ⟨by simp [readerLeft, hpending, Exit.rank], rfl⟩
  · exact ⟨by simp [readerLeft, hclosing, Exit.rank], rfl⟩

theorem assemblerLeft_lt (htook : ∀ action, d.Took action) (hnext : d' ∈ d.assemblerNext) :
    d'.assemblerLeft < d.assemblerLeft ∧ d'.readerLeft = d.readerLeft := by
  rcases mem_assemblerNext hnext with ⟨a, p, x, hmem, rfl⟩ |
    ⟨failure, -, ⟨hpending, rfl⟩ | ⟨hclosing, rfl⟩⟩
  · have hlt := Assembler.left_lt (htook .lower) hmem
    exact ⟨Nat.add_lt_add_right hlt _, rfl⟩
  · exact ⟨by simp [assemblerLeft, hpending, Exit.rank], rfl⟩
  · exact ⟨by simp [assemblerLeft, hclosing, Exit.rank], rfl⟩

theorem readerLeft_le (d : Device) : d.readerLeft ≤ 5 :=
  Nat.add_le_add d.reader.phase.left_le d.readerExit.rank_le

theorem assemblerLeft_le (d : Device) : d.assemblerLeft ≤ 10 :=
  Nat.add_le_add d.assembler.phase.left_le d.assemblerExit.rank_le

/-- The reader leaves the assembler's exit alone. -/
theorem assemblerExit_of_readerNext (hnext : d' ∈ d.readerNext) :
    d'.assemblerExit = d.assemblerExit := by
  rcases mem_readerNext hnext with ⟨r, s, p, -, rfl⟩ | ⟨failure, -, ⟨-, rfl⟩ | ⟨-, rfl⟩⟩ <;> rfl

/-- The assembler leaves the reader alone. -/
theorem reader_of_assemblerNext (hnext : d' ∈ d.assemblerNext) : d'.reader = d.reader := by
  rcases mem_assemblerNext hnext with ⟨a, p, x, -, rfl⟩ | ⟨failure, -, ⟨-, rfl⟩ | ⟨-, rfl⟩⟩ <;> rfl

/-- The assembler seals the exchange in one step, and in no other. -/
theorem Sound.seals_once (hd : d.Sound cores stream pending h) (hnext : d' ∈ d.assemblerNext) :
    if d'.assemblerExit = .closing then d.assemblerExit = .pending
    else (d'.assemblerExit = .pending ↔ d.assemblerExit = .pending) := by
  rcases mem_assemblerNext hnext with ⟨a, p, x, hmem, rfl⟩ |
    ⟨failure, -, ⟨hpending, rfl⟩ | ⟨hclosing, rfl⟩⟩
  · have hpending : d.assemblerExit = .pending := by
      by_contra hne
      obtain ⟨failure, hphase⟩ := hd.assembler_over hne
      simp [Assembler.next, hphase] at hmem
    simp [hpending]
  · simp [hpending]
  · simp [hclosing]

/-- Over a stream of whole records, a step of the reader leaves it with nothing to report. -/
theorem Sound.tame_readerNext (hd : d.Sound cores stream pending h)
    (hwhole : chunkSize ∣ stream.length)
    (hlowered : d.source.isClosed = true → d.signals.running = false)
    (ht : d.reader.phase.Tame d.signals) (hnext : d' ∈ d.readerNext) :
    d'.reader.phase.Tame d.signals := by
  rcases mem_readerNext hnext with ⟨r, s, p, hmem, rfl⟩ | ⟨failure, -, ⟨-, rfl⟩ | ⟨-, rfl⟩⟩
  · obtain ⟨acquired, filed, hs, -⟩ := hd.assembled
    exact hs.tame_next hwhole hlowered ht hmem
  · exact ht
  · exact ht

/-- Beginning to stop is nothing that the workers notice. -/
theorem Sound.begin (hd : d.Sound cores stream pending h) :
    { d with stopped := true }.Sound cores stream pending h :=
  ⟨hd.exchange_eq, hd.inv, hd.assembled, hd.depth_pos, hd.pool_sealed, hd.reader_over,
    hd.exchange_sealed, hd.assembler_over, hd.failures⟩

/-- An action that has been taken is not undone by another. -/
theorem Took.halt (htook : d.Took action) (other : Halt) : (d.halt other).Took action := by
  cases action <;> cases other <;> simp_all [Took, Device.halt, Source.close, Pool.close]

/-- An action does what is to be seen of it, if there are workers. -/
theorem took_halt (hstarted : d.started = true) (action : Halt) : (d.halt action).Took action := by
  cases action <;> simp [Took, Device.halt, Source.close, Pool.close, hstarted]

theorem Took.of_flags (htook : d.Took action) (hsignals : d'.signals = d.signals)
    (hsource : d'.source.isClosed = d.source.isClosed)
    (hpool : d'.pool.isClosed = d.pool.isClosed) : d'.Took action := by
  cases action <;> simp_all [Took]

theorem Took.abandon (htook : d.Took action) : d.abandon.Took action := by
  cases action <;> simp_all [Took, Device.abandon] <;> split <;> simp_all

@[simp] theorem running_abandon (d : Device) :
    d.abandon.signals.running = d.signals.running := by
  simp only [abandon]
  split <;> rfl

/-- One action closes the source. -/
theorem closed_halt (hclosed : (d.halt action).source.isClosed = true) :
    action = .closeSource ∨ d.source.isClosed = true := by
  cases action with
  | closeSource => exact .inl rfl
  | lower | closePool | cancel => exact .inr hclosed

/-- No action of a stop touches the workers themselves. -/
theorem halt_frame (d : Device) (action : Halt) :
    (d.halt action).started = d.started ∧ (d.halt action).reader = d.reader ∧
      (d.halt action).assembler = d.assembler ∧ (d.halt action).readerExit = d.readerExit ∧
      (d.halt action).assemblerExit = d.assemblerExit := by
  cases action <;> exact ⟨rfl, rfl, rfl, rfl, rfl⟩

/-- Nor does it change what there is to do for anybody. -/
theorem work_halt (d : Device) (action : Halt) :
    (d.halt action).work = d.work ∧ (d.halt action).source.tail = d.source.tail ∧
      (d.halt action).exchange = d.exchange ∧ (d.halt action).abandoned = d.abandoned := by
  cases action <;> exact ⟨rfl, rfl, rfl, rfl⟩

end Device

end Cosim

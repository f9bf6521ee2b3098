import Cosim.Proofs.Workers

/-!
# The workers get somewhere

* `Device.work` measures what the workers of a device have left to do.  Every step
  of a worker makes it smaller, so they cannot go on for ever without new bytes.
* `Sound.drained`, `Sound.reader_released` and `Sound.assembler_released` say what it means
  that no worker can move.
  The workers never wait for each other in a circle: they wait for the hardware or
  for the taker, or they are done.
* `Sound.settle` says that `Device.settle` runs the workers until none can move.
-/

namespace Cosim

/-- Some run of steps never ends. -/
def Endless {α : Type} (step : α → α → Prop) (a : α) : Prop :=
  ∃ run : Nat → α, run 0 = a ∧ ∀ n, step (run n) (run (n + 1))

/-- Where every step keeps an invariant and makes a measure smaller, every run
ends. -/
theorem not_endless {α : Type} {step : α → α → Prop} {inv : α → Prop} (measure : α → Nat)
    (hkeeps : ∀ a b, inv a → step a b → inv b)
    (hless : ∀ a b, inv a → step a b → measure b < measure a) {a : α} (ha : inv a) :
    ¬ Endless step a := by
  rintro ⟨run, rfl, hrun⟩
  have hinv : ∀ n, inv (run n) := by
    intro n
    induction n with
    | zero => exact ha
    | succ n ih => exact hkeeps _ _ ih (hrun n)
  have hbound : ∀ n, measure (run n) + n ≤ measure (run 0) := by
    intro n
    induction n with
    | zero => exact Nat.le_refl _
    | succ n ih =>
      have := hless _ _ (hinv n) (hrun n)
      omega
  have := hbound (measure (run 0) + 1)
  omega

/-! ## Ranks -/

/-- How far a phase of the reader is from the end of its round. -/
def Reader.Phase.rank : Reader.Phase → Nat
  | .idle | .returned _ => 0
  | .stopped _ _ => 4
  | .fill _ got => 5 + got
  | .acquire => 6
  | .enter => 7
  | .start => 8
  | .count => 10
  | .publish _ => 4 + chunkSize

/-- How far a phase of the assembler is from the end of its round. -/
def Assembler.Phase.rank : Assembler.Phase → Nat
  | .idle | .returned _ => 0
  | .failed _ => 3
  | .acquire => 4
  | .start => 5
  | .count => 6
  | .deliver => 8
  | .file _ _ => 9
  | .unpack _ _ => 10
  | .claim _ _ => 11
  | .inspect _ => 12

/-- How much a worker that has returned still has to do. -/
def Exit.rank : Exit → Nat
  | .pending => 2
  | .closing => 1
  | .done => 0

/-- A step of the reader brings bytes closer to the busy queue, or the reader
closer to its end.  A byte counts twice before it is read and once after, and a
published chunk counts less than the bytes in it. -/
theorem Supplied.rank_lt {stream pending : List UInt8} {calm : Prop} {signals : Signals}
    {r r' : Reader} {source source' : Source} {pool pool' : Pool} {acquired : Nat}
    {reading : List Nat}
    (hs : Supplied chunkSize stream pending calm reading acquired r source pool)
    (hmem : (r', source', pool') ∈ r.next signals source pool) :
    2 * source'.queue.length + 30 * pool'.busy.length + r'.phase.rank <
      2 * source.queue.length + 30 * pool.busy.length + r.phase.rank := by
  obtain ⟨leaked, lost, hs, hp, hsize⟩ := hs
  unfold Reader.next at hmem
  cases hphase : r.phase with
  | idle | returned => simp [hphase] at hmem
  | start =>
    simp only [hphase, List.mem_singleton, Prod.mk.injEq] at hmem
    obtain ⟨rfl, rfl, rfl⟩ := hmem
    split <;> simp [Reader.goto, Reader.Phase.rank]
  | enter =>
    simp only [hphase, List.mem_singleton, Prod.mk.injEq] at hmem
    obtain ⟨rfl, rfl, rfl⟩ := hmem
    split <;> simp [Reader.goto, Reader.Phase.rank]
  | acquire =>
    simp only [hphase, List.mem_append, List.mem_map] at hmem
    rcases hmem with ⟨o, ho, heq⟩ | hcancelled
    · rcases Pool.mem_freeOutcomes.mp ho with ⟨-, rfl⟩ | ⟨h, rest, -, rfl⟩
      · cases heq
        simp [Reader.goto, Reader.Phase.rank]
      · cases heq
        simp [Reader.goto, Reader.Phase.rank, Pool.updateSlot]
    · split at hcancelled <;> simp_all [Reader.goto, Reader.Phase.rank]
  | fill h got =>
    have hgot := hs.got_le h got hphase
    simp only [hphase] at hmem
    split at hmem
    · rename_i hfull
      simp only [List.mem_singleton, Prod.mk.injEq] at hmem
      obtain ⟨rfl, rfl, rfl⟩ := hmem
      simp only [Reader.goto, Reader.Phase.rank]
      omega
    · rename_i hmore
      split at hmem
      · simp at hmem
      · rename_i data source₁ hread
        simp only [List.mem_singleton, Prod.mk.injEq] at hmem
        obtain ⟨rfl, rfl, rfl⟩ := hmem
        have htail : source.tail ≠ .zeros := by
          rcases hs.tail_eq with ht | ⟨ht, -⟩ <;> simp [ht]
        obtain ⟨hqueue, hpos, -⟩ := Source.read_bytes hread htail (by omega)
        have hlen := congrArg List.length hqueue
        rw [List.length_append] at hlen
        simp only [Reader.goto, Reader.Phase.rank, Pool.write, Pool.updateSlot]
        omega
      · simp only [List.mem_singleton, Prod.mk.injEq] at hmem
        obtain ⟨rfl, rfl, rfl⟩ := hmem
        simp only [Reader.goto, Reader.Phase.rank]
        omega
  | stopped got how =>
    simp only [hphase, List.mem_singleton, Prod.mk.injEq] at hmem
    obtain ⟨rfl, rfl, rfl⟩ := hmem
    simp [Reader.goto, Reader.Phase.rank]
  | publish h =>
    simp only [hphase] at hmem
    have hin : h ∈ r.phase.hand ++ leaked := by simp [hphase, Reader.Phase.hand]
    by_cases hopen : pool.isSealed = false ∧ pool.isClosed = false
    · obtain ⟨pool₁, hok, -, -, -, hbusy, -⟩ := hp.publish hin hopen
      simp only [hok, List.mem_singleton, Prod.mk.injEq] at hmem
      obtain ⟨rfl, rfl, rfl⟩ := hmem
      simp only [Reader.goto, Reader.Phase.rank, hbusy, List.length_append, List.length_singleton,
        chunkSize]
      omega
    · have hover : pool.isSealed = true ∨ pool.isClosed = true := by
        cases hsealed : pool.isSealed <;> cases hclosed : pool.isClosed <;> simp_all
      simp only [hp.publish_closed hin hover, List.mem_singleton, Prod.mk.injEq] at hmem
      obtain ⟨rfl, rfl, rfl⟩ := hmem
      simp [Reader.goto, Reader.Phase.rank, chunkSize]
  | count =>
    simp only [hphase, List.mem_singleton, Prod.mk.injEq] at hmem
    obtain ⟨rfl, rfl, rfl⟩ := hmem
    simp [Reader.Phase.rank]

/-- Giving a chunk back leaves the busy queue alone. -/
theorem Pool.busy_release {p p' : Pool} {h : Int} (hok : p.release h = .ok p') :
    p'.busy = p.busy := by
  unfold Pool.release at hok
  cases hheld : p.checkHeld .release h .busy with
  | error e => simp [hheld, bind, Except.bind] at hok
  | ok h' =>
    simp only [hheld, bind, Except.bind, pure, Except.pure, Except.ok.injEq] at hok
    rw [← hok]
    rfl

theorem Assembler.rank_releasing {a a' : Assembler} {pool pool' : Pool} {x x' : Exchange} {h : Nat}
    {phase : Phase} {failure : Error → Error} {n : Nat} (hphase : phase.rank < n) (hfailed : 3 < n)
    (heq : (a', pool', x') = a.releasing pool x h phase failure) :
    30 * pool'.busy.length + a'.phase.rank < 30 * pool.busy.length + n := by
  unfold Assembler.releasing at heq
  cases hok : pool.release h with
  | ok pool₁ =>
    simp only [hok, Prod.mk.injEq] at heq
    obtain ⟨rfl, rfl, rfl⟩ := heq
    rw [Pool.busy_release hok]
    simpa [Assembler.goto] using hphase
  | error e =>
    simp only [hok, Prod.mk.injEq] at heq
    obtain ⟨rfl, rfl, rfl⟩ := heq
    simpa [Assembler.goto, Phase.rank] using hfailed

/-- A step of the assembler brings its record closer to the snapshot. -/
theorem Assembler.rank_lt {signals : Signals} {a a' : Assembler} {pool pool' : Pool}
    {x x' : Exchange} (hmem : (a', pool', x') ∈ a.next signals pool x) :
    30 * pool'.busy.length + a'.phase.rank < 30 * pool.busy.length + a.phase.rank := by
  unfold Assembler.next at hmem
  cases hphase : a.phase with
  | idle | returned => simp [hphase] at hmem
  | start =>
    simp only [hphase, List.mem_singleton, Prod.mk.injEq] at hmem
    obtain ⟨rfl, rfl, rfl⟩ := hmem
    split <;> simp [Assembler.goto, Phase.rank]
  | acquire =>
    simp only [hphase, List.mem_append, List.mem_map] at hmem
    rcases hmem with ⟨o, ho, heq⟩ | hcancelled
    · rcases Pool.mem_busyOutcomes.mp ho with ⟨-, rfl⟩ | ⟨h, rest, hbusy, rfl⟩ | ⟨-, -, rfl⟩
      · cases heq
        simp [Assembler.goto, Phase.rank]
      · cases heq
        simp only [Assembler.goto, Phase.rank, Pool.updateSlot, hbusy, List.length_cons]
        omega
      · cases heq
        simp [Assembler.goto, Phase.rank]
    · split at hcancelled <;> simp_all [Assembler.goto, Phase.rank]
  | inspect h =>
    simp only [hphase] at hmem
    split at hmem
    · rw [List.mem_singleton] at hmem
      exact rank_releasing (by simp [Phase.rank]) (by simp [Phase.rank]) hmem
    · simp only [List.mem_singleton, Prod.mk.injEq] at hmem
      obtain ⟨rfl, rfl, rfl⟩ := hmem
      split <;> simp [Assembler.goto, Phase.rank]
  | claim h core =>
    simp only [hphase, List.mem_append] at hmem
    rcases hmem with hclaim | hcancelled
    · split at hclaim <;> simp_all [Phase.rank]
    · split at hcancelled
      · rw [List.mem_singleton] at hcancelled
        exact rank_releasing (by simp [Phase.rank]) (by simp [Phase.rank]) hcancelled
      · simp at hcancelled
  | unpack h core =>
    simp only [hphase, List.mem_singleton] at hmem
    exact rank_releasing (by simp [Phase.rank]) (by simp [Phase.rank]) hmem
  | file core state =>
    simp only [hphase] at hmem
    split at hmem
    · simp at hmem
    · split at hmem
      · simp_all [Assembler.goto, Phase.rank]
      · split at hmem <;> simp_all [Assembler.goto, Phase.rank]
  | deliver =>
    simp only [hphase] at hmem
    split at hmem
    · simp at hmem
    · split at hmem <;> simp_all [Phase.rank]
  | count =>
    simp only [hphase, List.mem_singleton, Prod.mk.injEq] at hmem
    obtain ⟨rfl, rfl, rfl⟩ := hmem
    simp [Phase.rank]
  | failed e =>
    simp only [hphase, List.mem_singleton, Prod.mk.injEq] at hmem
    obtain ⟨rfl, rfl, rfl⟩ := hmem
    split <;> simp [Assembler.goto, Phase.rank]

namespace Device

variable {cores : Nat} {stream pending : List UInt8} {d d' : Device} {h : Handover}

/-- What the workers have left to do. -/
def work (d : Device) : Nat :=
  2 * d.source.queue.length + 30 * d.pool.busy.length + d.reader.phase.rank + d.readerExit.rank +
    d.assembler.phase.rank + d.assemblerExit.rank

theorem Sound.work_readerNext (hd : d.Sound cores stream pending h) (hmem : d' ∈ d.readerNext) :
    d'.work < d.work := by
  rcases mem_readerNext hmem with ⟨r, s, p, hnext, rfl⟩ | ⟨failure, hphase, hexit⟩
  · obtain ⟨acquired, filed, hs, -⟩ := hd.assembled
    have hlt := hs.rank_lt hnext
    simp only [work]
    omega
  · rcases hexit with ⟨hpending, rfl⟩ | ⟨hclosing, rfl⟩
    · simp [work, Pool.finish, hpending, Exit.rank]
    · simp [work, hclosing, Exit.rank]

/-- The reader leaves the exchange alone and reports at most one error. -/
theorem readerNext_frame (hmem : d' ∈ d.readerNext) :
    d'.exchange = d.exchange ∧ d'.failures.length ≤ d.failures.length + 1 := by
  rcases mem_readerNext hmem with ⟨r, s, p, -, rfl⟩ | ⟨failure, -, ⟨-, rfl⟩ | ⟨-, rfl⟩⟩
  · simp
  · simp
  · cases failure <;> simp

/-- The assembler reports at most one error. -/
theorem assemblerNext_frame (hmem : d' ∈ d.assemblerNext) :
    d'.failures.length ≤ d.failures.length + 1 := by
  rcases mem_assemblerNext hmem with ⟨a, p, x, -, rfl⟩ | ⟨failure, -, ⟨-, rfl⟩ | ⟨-, rfl⟩⟩
  · simp
  · simp
  · cases failure <;> simp

theorem work_assemblerNext (hmem : d' ∈ d.assemblerNext) : d'.work < d.work := by
  rcases mem_assemblerNext hmem with ⟨a, p, x, hnext, rfl⟩ | ⟨failure, hphase, hexit⟩
  · have hlt := Assembler.rank_lt hnext
    simp only [work]
    omega
  · rcases hexit with ⟨hpending, rfl⟩ | ⟨hclosing, rfl⟩
    · simp [work, hpending, Exit.rank]
    · simp [work, hclosing, Exit.rank]

end Device

/-! ## Waiting -/

/-- A reader that cannot move has ended, or waits for a chunk or for bytes. -/
theorem Reader.waits {signals : Signals} {r : Reader} {source : Source} {pool : Pool}
    (hnil : r.next signals source pool = []) (hstarted : r.phase ≠ .idle) :
    (∃ failure, r.phase = .returned failure) ∨
    (r.phase = .acquire ∧ pool.free = [] ∧ pool.isClosed = false ∧ signals.cancelled = false) ∨
    ((∃ h got, r.phase = .fill h got) ∧ source.tail = .opened ∧ source.isClosed = false) := by
  unfold Reader.next at hnil
  cases hphase : r.phase with
  | idle => exact absurd hphase hstarted
  | returned failure => exact .inl ⟨failure, rfl⟩
  | start | enter | stopped | count => simp [hphase] at hnil
  | publish h =>
    simp only [hphase] at hnil
    split at hnil <;> simp at hnil
  | acquire =>
    right; left
    simp only [hphase, List.append_eq_nil_iff, List.map_eq_nil_iff] at hnil
    obtain ⟨hfree, hcancelled⟩ := hnil
    unfold Pool.freeOutcomes at hfree
    refine ⟨rfl, ?_⟩
    cases hclosed : pool.isClosed <;> cases hqueue : pool.free <;> simp_all
  | fill h got =>
    right; right
    refine ⟨⟨h, got, rfl⟩, ?_⟩
    simp only [hphase] at hnil
    split at hnil
    · simp at hnil
    · split at hnil
      · rename_i hread
        unfold Source.read at hread
        split at hread
        · simp at hread
        · dsimp only at hread
          split at hread
          · split at hread <;> simp_all
          · simp at hread
      · simp at hnil
      · simp at hnil

/-- An assembler that cannot move has ended, or waits for a record or for a
snapshot. -/
theorem Assembler.waits {signals : Signals} {a : Assembler} {pool : Pool} {x : Exchange}
    (hnil : a.next signals pool x = []) (hstarted : a.phase ≠ .idle)
    (hfiles : a.phase.files = true → a.current = some 0)
    (hoffer : a.phase = .deliver → ∃ x', x.offer 0 = .done x') :
    (∃ failure, a.phase = .returned failure) ∨
    (a.phase = .acquire ∧ pool.busy = [] ∧ pool.isSealed = false ∧ pool.isClosed = false ∧
      signals.cancelled = false) ∨
    ((∃ h core, a.phase = .claim h core) ∧ x.empty = none ∧ signals.cancelled = false) := by
  unfold Assembler.next at hnil
  cases hphase : a.phase with
  | idle => exact absurd hphase hstarted
  | returned failure => exact .inl ⟨failure, rfl⟩
  | start | unpack | count | failed => simp [hphase] at hnil
  | inspect h =>
    simp only [hphase] at hnil
    split at hnil <;> simp at hnil
  | acquire =>
    right; left
    simp only [hphase, List.append_eq_nil_iff, List.map_eq_nil_iff] at hnil
    obtain ⟨hbusy, hcancelled⟩ := hnil
    unfold Pool.busyOutcomes at hbusy
    refine ⟨rfl, ?_⟩
    cases hclosed : pool.isClosed <;> cases hsealed : pool.isSealed <;> cases hqueue : pool.busy <;>
      simp_all
  | claim h core =>
    right; right
    refine ⟨⟨h, core, rfl⟩, ?_⟩
    simp only [hphase, List.append_eq_nil_iff] at hnil
    obtain ⟨hclaim, hcancelled⟩ := hnil
    unfold Exchange.claim at hclaim
    cases hempty : x.empty <;> simp_all
  | file core state =>
    have hcurrent := hfiles (by simp [hphase, Phase.files])
    simp only [hphase, hcurrent] at hnil
    split at hnil
    · simp at hnil
    · split at hnil <;> simp at hnil
  | deliver =>
    have hcurrent := hfiles (by simp [hphase, Phase.files])
    obtain ⟨x', hx⟩ := hoffer hphase
    simp [hphase, hcurrent, hx] at hnil

namespace Device.Sound

variable {cores : Nat} {stream pending : List UInt8} {d : Device} {h : Handover}

theorem reader_waits (hd : d.Sound cores stream pending h) (hnil : d.readerNext = []) :
    d.readerExit = .done ∨
    (d.reader.phase = .acquire ∧ d.pool.free = [] ∧ d.pool.isClosed = false ∧
      d.signals.cancelled = false) ∨
    ((∃ h got, d.reader.phase = .fill h got) ∧ d.source.tail = .opened ∧
      d.source.isClosed = false) := by
  obtain ⟨acquired, filed, ⟨leaked, lost, hs, -, -⟩, -⟩ := hd.assembled
  by_cases hover : ∃ failure, d.reader.phase = .returned failure
  · obtain ⟨failure, hphase⟩ := hover
    left
    simp only [Device.readerNext, hphase] at hnil
    cases hexit : d.readerExit <;> simp_all
  · have hnext : d.reader.next d.signals d.source d.pool = [] := by
      unfold Device.readerNext at hnil
      split at hnil
      · exact absurd ⟨_, by assumption⟩ hover
      · simpa using hnil
    rcases Reader.waits hnext hs.started with hreturned | hwaits
    · exact absurd hreturned hover
    · exact .inr hwaits

theorem assembler_waits (hd : d.Sound cores stream pending h) (hnil : d.assemblerNext = []) :
    d.assemblerExit = .done ∨
    (d.assembler.phase = .acquire ∧ d.pool.busy = [] ∧ d.pool.isSealed = false ∧
      d.pool.isClosed = false ∧ d.signals.cancelled = false) ∨
    ((∃ h core, d.assembler.phase = .claim h core) ∧ d.exchange.empty = none ∧
      d.signals.cancelled = false) := by
  obtain ⟨acquired, filed, -, ha⟩ := hd.assembled
  by_cases hover : ∃ failure, d.assembler.phase = .returned failure
  · obtain ⟨failure, hphase⟩ := hover
    left
    simp only [Device.assemblerNext, hphase] at hnil
    cases hexit : d.assemblerExit with
    | pending =>
      have hopen : d.exchange.isSealed = false := by
        rw [← Bool.not_eq_true, hd.exchange_sealed]
        simp [hexit]
      simp [hexit, Exchange.close_eq_ok.mpr ⟨hopen, rfl⟩] at hnil
    | closing => simp [hexit] at hnil
    | done => rfl
  · have hnext : d.assembler.next d.signals d.pool d.exchange = [] := by
      unfold Device.assemblerNext at hnil
      split at hnil
      · exact absurd ⟨_, by assumption⟩ hover
      · simpa using hnil
    have hopen : h.exchange.isSealed = false := by
      rw [← Bool.not_eq_true, hd.exchange_eq, hd.exchange_sealed]
      exact fun hne => hover (hd.assembler_over hne)
    have hoffer : d.assembler.phase = .deliver → ∃ x, d.exchange.offer 0 = .done x := by
      intro hphase
      obtain ⟨-, -, hdone, -⟩ := ha.deliver hd.inv hphase hopen
      exact ⟨_, hd.exchange_eq ▸ hdone⟩
    rcases Assembler.waits hnext ha.started ha.holding hoffer with hreturned | hwaits
    · exact absurd hreturned hover
    · exact .inr hwaits

/-- Workers that cannot move, with nothing to wait for from the hardware or the
taker, have come to the end of the stream: they never wait for each other. -/
theorem drained (hd : d.Sound cores stream pending h) (hreader : d.readerNext = [])
    (hassembler : d.assemblerNext = []) (htail : d.source.tail ≠ .opened)
    (htaker : h.taker = .idle) (hfull : d.exchange.full = none) : d.assemblerExit = .done := by
  rcases hd.assembler_waits hassembler with hdone | ⟨hphase, hbusy, hsealed, -, -⟩ |
    ⟨⟨chunk, core, hphase⟩, hempty, -⟩
  · exact hdone
  · -- The assembler waits for the reader, which then waits for a chunk; but there
    -- is no one who could have the chunks.
    obtain ⟨acquired, filed, ⟨leaked, lost, hs, hp, -⟩, -⟩ := hd.assembled
    rcases hd.reader_waits hreader with hdone | ⟨hacquire, hfree, -, -⟩ | ⟨-, hopen, -⟩
    · have := hd.pool_sealed.mpr (by simp [hdone])
      simp [hsealed] at this
    · obtain ⟨-, rfl⟩ := hs.active (by simp [hacquire, Reader.Phase.isOver])
      have hheld := hp.held_of_empty hd.depth_pos hfree hbusy
      simp [hacquire, hphase, Reader.Phase.hand, Assembler.Phase.hand] at hheld
    · exact absurd hopen htail
  · -- The assembler waits for the snapshot, which then is nowhere.
    obtain ⟨acquired, filed, -, ha⟩ := hd.assembled
    have howned := hd.inv.owned
    rw [ha.filler_eq, Assembler.ticket_filler, ha.claiming chunk core hphase, htaker,
      hd.exchange_eq] at howned
    rcases howned.waits with hwaits | hwaits
    · simp [hempty] at hwaits
    · simp [hfull] at hwaits

/-- A taker gets an answer, at the latest when the hardware has delivered everything and
the workers cannot move. -/
theorem take_answers (hd : d.Sound cores stream pending h) (hreader : d.readerNext = [])
    (hassembler : d.assemblerNext = []) (htail : d.source.tail ≠ .opened)
    (htaker : h.taker = .idle) : ∃ result x, d.exchange.take = some (result, x) := by
  cases hfull : d.exchange.full with
  | some t => exact ⟨_, _, hd.take_full hfull⟩
  | none =>
    have hdone := hd.drained hreader hassembler htail htaker hfull
    have hsealed := hd.exchange_sealed.mpr (by simp [hdone])
    have htake := Exchange.take_none hfull
    rw [hsealed, if_pos rfl] at htake
    exact ⟨_, _, htake⟩

/-- Once the source is closed and the context cancelled, a reader that cannot move has come
to its end. -/
theorem reader_released (hd : d.Sound cores stream pending h) (hnil : d.readerNext = [])
    (hcancelled : d.signals.cancelled = true) (hsource : d.source.isClosed = true) :
    d.readerExit = .done := by
  rcases hd.reader_waits hnil with hdone | ⟨-, -, -, hnot⟩ | ⟨-, -, hnot⟩
  · exact hdone
  · simp [hcancelled] at hnot
  · simp [hsource] at hnot

/-- So has an assembler. -/
theorem assembler_released (hd : d.Sound cores stream pending h) (hnil : d.assemblerNext = [])
    (hcancelled : d.signals.cancelled = true) : d.assemblerExit = .done := by
  rcases hd.assembler_waits hnil with hdone | ⟨-, -, -, -, hnot⟩ | ⟨-, -, hnot⟩
  · exact hdone
  · simp [hcancelled] at hnot
  · simp [hcancelled] at hnot

end Device.Sound

/-! ## Settling -/

/-- No place holds more chunks than the pool has. -/
theorem Pool.Placed.length_place_le {p : Pool} {writing reading : List Nat}
    (hp : p.Placed writing reading) (tag : Tag) :
    (p.place writing reading tag).length ≤ p.depth := by
  have hsub : p.place writing reading tag ⊆ List.range p.depth := by
    intro h hmem
    exact List.mem_range.mpr (hp.lt_depth hmem)
  have hle := (List.subperm_of_subset (hp.nodup tag) hsub).length_le
  rwa [List.length_range] at hle

/-- The busy queue is no longer than the pool is deep. -/
theorem Pool.Placed.length_busy_le {p : Pool} {writing reading : List Nat}
    (hp : p.Placed writing reading) : p.busy.length ≤ p.depth :=
  hp.length_place_le (.busy, false)

theorem Reader.Phase.rank_le {phase : Reader.Phase}
    (hgot : ∀ h got, phase = .fill h got → got ≤ chunkSize) : phase.rank ≤ 5 + chunkSize := by
  cases phase with
  | fill h got =>
    have := hgot h got rfl
    simp only [rank]
    omega
  | _ => simp [rank, chunkSize]

theorem Assembler.Phase.rank_le (phase : Assembler.Phase) : phase.rank ≤ 12 := by
  cases phase <;> simp [rank]

theorem Exit.rank_le (exit : Exit) : exit.rank ≤ 2 := by
  cases exit <;> simp [rank]

namespace Device

variable {cores : Nat} {stream pending : List UInt8} {d d' d'' : Device} {h : Handover}

theorem Keeps.refl (d : Device) : d.Keeps d := ⟨rfl, rfl, rfl, rfl, rfl⟩

theorem Keeps.trans (hk : d.Keeps d') (hk' : d'.Keeps d'') : d.Keeps d'' where
  signals_eq := hk'.signals_eq.trans hk.signals_eq
  source_closed_eq := hk'.source_closed_eq.trans hk.source_closed_eq
  tail_eq := hk'.tail_eq.trans hk.tail_eq
  pool_closed_eq := hk'.pool_closed_eq.trans hk.pool_closed_eq
  started_eq := hk'.started_eq.trans hk.started_eq

/-- The workers have to wait before patience is at its end. -/
theorem Sound.work_le_patience (hd : d.Sound cores stream pending h) : d.work ≤ d.patience := by
  obtain ⟨acquired, filed, ⟨leaked, lost, hs, hp, hsize⟩, -⟩ := hd.assembled
  have hbusy := hp.length_busy_le
  have hreader := Reader.Phase.rank_le hs.got_le
  have hassembler := d.assembler.phase.rank_le
  have hexit := d.readerExit.rank_le
  have hexit' := d.assemblerExit.rank_le
  simp only [work, patience, hsize, maxCores]
  simp only [chunkSize] at hreader ⊢
  omega

theorem mem_next_of_advance (hadvance : d.advance = some d') :
    d' ∈ d.readerNext ∨ d' ∈ d.assemblerNext := by
  rw [advance, Option.orElse_eq_orElse, Option.orElse_eq_or] at hadvance
  rcases Option.or_eq_some_iff.mp hadvance with hreader | ⟨-, hassembler⟩
  · exact .inl (List.mem_of_mem_head? hreader)
  · exact .inr (List.mem_of_mem_head? hassembler)

theorem next_of_advance (hadvance : d.advance = none) :
    d.readerNext = [] ∧ d.assemblerNext = [] := by
  rw [advance, Option.orElse_eq_orElse, Option.orElse_eq_or, Option.or_eq_none_iff,
    List.head?_eq_none_iff, List.head?_eq_none_iff] at hadvance
  exact hadvance

/-- Settling is a run of the workers; with enough fuel, neither can move then. -/
theorem Sound.settle_go (fuel : Nat) (hd : d.Sound cores stream pending h) :
    ∃ h', (settle.go fuel d).Sound cores stream pending h' ∧ h'.taker = h.taker ∧
      h'.takes = h.takes ∧ d.Keeps (settle.go fuel d) ∧
      (d.work ≤ fuel →
        (settle.go fuel d).readerNext = [] ∧ (settle.go fuel d).assemblerNext = []) := by
  induction fuel generalizing d h with
  | zero =>
    refine ⟨h, hd, rfl, rfl, Keeps.refl d, fun hwork => ?_⟩
    constructor
    · refine List.eq_nil_iff_forall_not_mem.mpr fun d' hnext => ?_
      have := hd.work_readerNext hnext
      omega
    · refine List.eq_nil_iff_forall_not_mem.mpr fun d' hnext => ?_
      have : d'.work < d.work := work_assemblerNext hnext
      omega
  | succ fuel ih =>
    cases hadvance : d.advance with
    | none =>
      simp only [settle.go, hadvance]
      exact ⟨h, hd, rfl, rfl, Keeps.refl d, fun _ => next_of_advance hadvance⟩
    | some d' =>
      simp only [settle.go, hadvance]
      rcases mem_next_of_advance hadvance with hnext | hnext
      · have hless := hd.work_readerNext hnext
        obtain ⟨hd', hk⟩ := hd.readerNext hnext
        obtain ⟨h'', hd'', htaker, htakes, hk', hsettled⟩ := ih hd'
        exact ⟨h'', hd'', htaker, htakes, hk.trans hk', fun hwork => hsettled (by omega)⟩
      · have hless := work_assemblerNext hnext
        obtain ⟨h', -, htaker', htakes', hd', hk⟩ := hd.assemblerNext hnext
        obtain ⟨h'', hd'', htaker, htakes, hk', hsettled⟩ := ih hd'
        exact ⟨h'', hd'', htaker.trans htaker', htakes.trans htakes', hk.trans hk',
          fun hwork => hsettled (by omega)⟩

theorem Sound.settle (hd : d.Sound cores stream pending h) :
    ∃ h', d.settle.Sound cores stream pending h' ∧ h'.taker = h.taker ∧ h'.takes = h.takes ∧
      d.Keeps d.settle ∧ d.settle.readerNext = [] ∧ d.settle.assemblerNext = [] := by
  obtain ⟨h', hd', htaker, htakes, hk, hsettled⟩ := hd.settle_go d.patience
  exact ⟨h', hd', htaker, htakes, hk, hsettled hd.work_le_patience⟩

end Device

end Cosim

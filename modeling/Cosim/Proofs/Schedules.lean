import Cosim.Proofs.Budget
import Mathlib.Data.Multiset.Defs
import Mathlib.Tactic.Ring

/-!
# The order of steps does not matter

The workers of a device may take their steps in any order.  As long as nobody stops
them, the order makes no difference to where they end: whatever the hardware delivered
and whatever the taker did, every schedule runs to the same state of the device, up to
the order of the errors that the two workers report.

* `Device.Orderly` is what this rests on: nobody stops the workers, and each holds the
  chunk it works on.
* `Device.Orderly.diamond` is the core: a step of the reader and a step of the assembler
  can be taken in either order.
* `Device.Settles` says that every schedule ends, that all of them end alike, and that
  `Device.settle` is one of them; `Device.settles_of_reach` is the main statement.
-/

namespace Cosim

/-- What a step of the reader changes beside the pool. -/
structure Reader.Change where
  reader : Reader
  source : Source
  exit : Exit
  /-- The errors it reports. -/
  report : List Error := []

/-- What a step of the assembler changes beside the pool. -/
structure Assembler.Change where
  assembler : Assembler
  exchange : Exchange
  exit : Exit
  /-- The errors it reports. -/
  report : List Error := []

/-- Where there is at most one choice, any two are the same. -/
theorem eq_of_length_le_one {α : Type} {l : List α} {a b : α} (hl : l.length ≤ 1) (ha : a ∈ l)
    (hb : b ∈ l) : a = b := by
  match l with
  | [] => simp at ha
  | [_] => rw [List.mem_singleton.mp ha, List.mem_singleton.mp hb]
  | _ :: _ :: _ => simp at hl

namespace Device

/-- The device after a step of the reader. -/
def supply (d : Device) (c : Reader.Change) (pool : Pool) : Device :=
  { d with
    reader := c.reader, source := c.source, pool, readerExit := c.exit
    failures := d.failures ++ c.report }

/-- The device after a step of the assembler. -/
def assemble (d : Device) (c : Assembler.Change) (pool : Pool) : Device :=
  { d with
    assembler := c.assembler, exchange := c.exchange, pool, assemblerExit := c.exit
    failures := d.failures ++ c.report }

/-- Two devices that the reader cannot tell apart, but for what is in their pools. -/
structure ReaderSees (d e : Device) : Prop where
  reader_eq : e.reader = d.reader
  source_eq : e.source = d.source
  signals_eq : e.signals = d.signals
  exit_eq : e.readerExit = d.readerExit
  size_eq : e.pool.size = d.pool.size
  pool_open : e.pool.isClosed = false

/-- Two devices that the assembler cannot tell apart, but for what is in their pools. -/
structure AssemblerSees (d e : Device) : Prop where
  assembler_eq : e.assembler = d.assembler
  exchange_eq : e.exchange = d.exchange
  signals_eq : e.signals = d.signals
  exit_eq : e.assemblerExit = d.assemblerExit
  pool_open : e.pool.isClosed = false

/-- Nobody stops the workers, and each holds the chunk it works on. -/
structure Orderly (d : Device) : Prop where
  not_cancelled : d.signals.cancelled = false
  not_abandoned : d.abandoned = false
  pool_open : d.pool.isClosed = false
  placed : ∃ writing reading, d.pool.Placed writing reading
  reader_hand : ∀ h ∈ d.reader.phase.hand, d.pool.Tagged h (.free, true)
  assembler_hand : ∀ h ∈ d.assembler.phase.hand, d.pool.Tagged h (.busy, true)
  capacity_le : d.exchange.capacity ≤ maxCores

/-- What can happen to a device that nobody stops.  The taker may give back any ticket
and forget the records of any snapshot. -/
inductive Event : Device → Device → Prop where
  | start {d} : Event d d.start
  | work {d d'} (hstep : Step d d') : Event d d'
  | feed {d} (bytes : List UInt8) : Event d { d with source := d.source.feed bytes }
  | finish {d} (how : SourceEnd) : Event d { d with source := d.source.finish how }
  | take {d result x} (htake : d.exchange.take = some (result, x)) :
      Event d { d with exchange := x }
  | reset {d} (t : Ticket) : Event d { d with exchange := d.exchange.reset t }
  | giveBack {d x} (t : Ticket) (hback : d.exchange.giveBack t = .done x) :
      Event d { d with exchange := x }

/-- Any number of events, in any order. -/
abbrev Reach : Device → Device → Prop := Relation.ReflTransGen Event

/-- Two workers that have not been started, over a new pool and a new exchange.  Nothing
is said about the source, nor about what the workers do once they have returned: a pair
of workers that belongs to no device is done then, without sealing or reporting. -/
structure Fresh (d : Device) : Prop where
  not_cancelled : d.signals.cancelled = false
  not_abandoned : d.abandoned = false
  pool_new : ∃ depth size, Pool.create depth size = .ok d.pool
  exchange_new : ∃ cores, Exchange.create cores = .ok d.exchange
  reader_idle : d.reader.phase = .idle
  assembler_idle : d.assembler.phase = .idle

variable {d d' e b c : Device}

/-! ## Steps of the workers -/

theorem readerNext_of_next {r : Reader} {source : Source} {pool : Pool}
    (hmem : (r, source, pool) ∈ d.reader.next d.signals d.source d.pool) :
    { d with reader := r, source, pool } ∈ d.readerNext := by
  unfold readerNext
  split
  · rename_i failure hphase
    simp [Reader.next, hphase] at hmem
  · exact List.mem_map.mpr ⟨_, hmem, rfl⟩

theorem assemblerNext_of_next {a : Assembler} {pool : Pool} {exchange : Exchange}
    (hmem : (a, pool, exchange) ∈ d.assembler.next d.signals d.pool d.exchange) :
    { d with assembler := a, pool, exchange } ∈ d.assemblerNext := by
  unfold assemblerNext
  split
  · rename_i failure hphase
    simp [Assembler.next, hphase] at hmem
  · exact List.mem_map.mpr ⟨_, hmem, rfl⟩

theorem Orderly.supply (hd : d.Orderly) {act : Reader.Act} (hready : act.Ready d.pool)
    {change : Reader.Change}
    (hhand : ∀ h ∈ change.reader.phase.hand, (act.apply d.pool).Tagged h (.free, true)) :
    (d.supply change (act.apply d.pool)).Orderly := by
  obtain ⟨writing, reading, hp⟩ := hd.placed
  obtain ⟨writing', hp'⟩ := act.placed hp hd.pool_open hready
  exact
    { not_cancelled := hd.not_cancelled
      not_abandoned := hd.not_abandoned
      pool_open := (act.isClosed_apply d.pool).trans hd.pool_open
      placed := ⟨writing', reading, hp'⟩
      reader_hand := hhand
      assembler_hand := fun h hh => act.tagged_apply hready (hd.assembler_hand h hh)
      capacity_le := hd.capacity_le }

theorem Orderly.assemble (hd : d.Orderly) {act : Assembler.Act} (hready : act.Ready d.pool)
    {change : Assembler.Change}
    (hhand : ∀ h ∈ change.assembler.phase.hand, (act.apply d.pool).Tagged h (.busy, true))
    (hcapacity : change.exchange.capacity = d.exchange.capacity) :
    (d.assemble change (act.apply d.pool)).Orderly := by
  obtain ⟨writing, reading, hp⟩ := hd.placed
  obtain ⟨reading', hp'⟩ := act.placed hp hready
  exact
    { not_cancelled := hd.not_cancelled
      not_abandoned := hd.not_abandoned
      pool_open := (act.isClosed_apply d.pool).trans hd.pool_open
      placed := ⟨writing, reading', hp'⟩
      reader_hand := fun h hh => act.tagged_apply hready (hd.reader_hand h hh)
      assembler_hand := hhand
      capacity_le := hcapacity ▸ hd.capacity_le }

/-- A step of the reader is a change and an act, and is open to it in every device that
looks the same to it and whose pool is ready for the act. -/
theorem Orderly.readerNext (hd : d.Orderly) (hmem : d' ∈ d.readerNext) :
    ∃ (change : Reader.Change) (act : Reader.Act), act.Ready d.pool ∧
      d' = d.supply change (act.apply d.pool) ∧ d'.Orderly ∧
      ∀ e, ReaderSees d e → act.Ready e.pool →
        e.supply change (act.apply e.pool) ∈ e.readerNext := by
  -- It is enough to name the step for all devices that look the same at once.
  suffices hstep : ∃ (change : Reader.Change) (act : Reader.Act), act.Ready d.pool ∧
      (∀ h ∈ change.reader.phase.hand, (act.apply d.pool).Tagged h (.free, true)) ∧
      d' = d.supply change (act.apply d.pool) ∧
      ∀ e, ReaderSees d e → act.Ready e.pool →
        e.supply change (act.apply e.pool) ∈ e.readerNext by
    obtain ⟨change, act, hready, hhand, rfl, hall⟩ := hstep
    exact ⟨change, act, hready, rfl, hd.supply hready hhand, hall⟩
  rcases mem_readerNext hmem with ⟨r, s, p, hnext, rfl⟩ | ⟨failure, hphase, hexit⟩
  · obtain ⟨writing, reading, hp⟩ := hd.placed
    obtain ⟨act, hready, rfl, hhand, hall⟩ :=
      Reader.exists_act hd.not_cancelled hd.pool_open hp hd.reader_hand hnext
    refine ⟨⟨r, s, d.readerExit, []⟩, act, hready, hhand, by simp [Device.supply],
      fun e he hq => ?_⟩
    have hmem' : (r, s, act.apply e.pool) ∈ e.reader.next e.signals e.source e.pool := by
      rw [he.reader_eq, he.signals_eq, he.source_eq]
      exact hall e.pool he.size_eq he.pool_open hq
    simpa [Device.supply, ← he.exit_eq] using readerNext_of_next hmem'
  · have hhand : d.reader.phase.hand = [] := by simp [hphase, Reader.Phase.hand]
    rcases hexit with ⟨hpending, rfl⟩ | ⟨hclosing, rfl⟩
    · refine ⟨⟨d.reader, d.source, .closing, []⟩, .finish, trivial, by simp [hhand],
        by simp [Device.supply, Reader.Act.apply], fun e he _ => ?_⟩
      have hphase' : e.reader.phase = .returned failure := he.reader_eq ▸ hphase
      simp only [Device.readerNext, hphase', he.exit_eq, hpending, List.mem_singleton]
      simp [Device.supply, Reader.Act.apply, ← he.reader_eq, ← he.source_eq]
    · refine ⟨⟨d.reader, d.source, .done, failure.toList⟩, .rest, trivial, by simp [hhand],
        by simp [Device.supply, Reader.Act.apply], fun e he _ => ?_⟩
      have hphase' : e.reader.phase = .returned failure := he.reader_eq ▸ hphase
      simp only [Device.readerNext, hphase', he.exit_eq, hclosing, List.mem_singleton]
      simp [Device.supply, Reader.Act.apply, ← he.reader_eq, ← he.source_eq]

/-- A step of the assembler is a change and an act, and is open to it in every device
that looks the same to it and whose pool is ready for the act. -/
theorem Orderly.assemblerNext (hd : d.Orderly) (hmem : d' ∈ d.assemblerNext) :
    ∃ (change : Assembler.Change) (act : Assembler.Act), act.Ready d.pool ∧
      d' = d.assemble change (act.apply d.pool) ∧ d'.Orderly ∧
      ∀ e, AssemblerSees d e → act.Ready e.pool →
        e.assemble change (act.apply e.pool) ∈ e.assemblerNext := by
  suffices hstep : ∃ (change : Assembler.Change) (act : Assembler.Act), act.Ready d.pool ∧
      (∀ h ∈ change.assembler.phase.hand, (act.apply d.pool).Tagged h (.busy, true)) ∧
      change.exchange.capacity = d.exchange.capacity ∧
      d' = d.assemble change (act.apply d.pool) ∧
      ∀ e, AssemblerSees d e → act.Ready e.pool →
        e.assemble change (act.apply e.pool) ∈ e.assemblerNext by
    obtain ⟨change, act, hready, hhand, hcapacity, rfl, hall⟩ := hstep
    exact ⟨change, act, hready, rfl, hd.assemble hready hhand hcapacity, hall⟩
  rcases mem_assemblerNext hmem with ⟨a, p, x, hnext, rfl⟩ | ⟨failure, hphase, hexit⟩
  · obtain ⟨writing, reading, hp⟩ := hd.placed
    obtain ⟨-, hcapacity, -⟩ := Assembler.budget_lt hnext
    obtain ⟨act, hready, rfl, hhand, hall⟩ :=
      Assembler.exists_act hd.not_cancelled hd.pool_open hp hd.assembler_hand hnext
    refine ⟨⟨a, x, d.assemblerExit, []⟩, act, hready, hhand, hcapacity, by simp [Device.assemble],
      fun e he hq => ?_⟩
    have hmem' : (a, act.apply e.pool, x) ∈ e.assembler.next e.signals e.pool e.exchange := by
      rw [he.assembler_eq, he.signals_eq, he.exchange_eq]
      exact hall e.pool he.pool_open hq
    simpa [Device.assemble, ← he.exit_eq] using assemblerNext_of_next hmem'
  · have hhand : d.assembler.phase.hand = [] := by simp [hphase, Assembler.Phase.hand]
    rcases hexit with ⟨⟨hpending, hopen⟩, rfl⟩ | ⟨hclosing, rfl⟩
    · refine ⟨⟨d.assembler, { d.exchange with isSealed := true }, .closing, []⟩, .rest, trivial,
        by simp [hhand], rfl, by simp [Device.assemble, Assembler.Act.apply], fun e he _ => ?_⟩
      have hphase' : e.assembler.phase = .returned failure := he.assembler_eq ▸ hphase
      have hclose := Exchange.close_eq_ok.mpr ⟨he.exchange_eq ▸ hopen, rfl⟩
      simp only [Device.assemblerNext, hphase', he.exit_eq, hpending, hclose, List.mem_singleton]
      simp [Device.assemble, Assembler.Act.apply, ← he.assembler_eq, ← he.exchange_eq]
    · refine ⟨⟨d.assembler, d.exchange, .done, failure.toList⟩, .rest, trivial, by simp [hhand],
        rfl, by simp [Device.assemble, Assembler.Act.apply], fun e he _ => ?_⟩
      have hphase' : e.assembler.phase = .returned failure := he.assembler_eq ▸ hphase
      simp only [Device.assemblerNext, hphase', he.exit_eq, hclosing, List.mem_singleton]
      simp [Device.assemble, Assembler.Act.apply, ← he.assembler_eq, ← he.exchange_eq]

theorem Orderly.step (hd : d.Orderly) (hstep : Step d d') : d'.Orderly := by
  rcases List.mem_append.mp hstep with hreader | hassembler
  · obtain ⟨_, _, -, -, hd', -⟩ := hd.readerNext hreader
    exact hd'
  · obtain ⟨_, _, -, -, hd', -⟩ := hd.assemblerNext hassembler
    exact hd'

theorem Orderly.readerNext_unique (hd : d.Orderly) (hb : b ∈ d.readerNext)
    (hc : c ∈ d.readerNext) : b = c := by
  have hlength : d.readerNext.length ≤ 1 := by
    unfold Device.readerNext
    split
    · cases d.readerExit <;> simp
    · rw [List.length_map]
      exact Reader.length_next_le hd.not_cancelled hd.pool_open
  exact eq_of_length_le_one hlength hb hc

theorem Orderly.assemblerNext_unique (hd : d.Orderly) (hb : b ∈ d.assemblerNext)
    (hc : c ∈ d.assemblerNext) : b = c := by
  have hlength : d.assemblerNext.length ≤ 1 := by
    unfold Device.assemblerNext
    split
    · cases d.assemblerExit <;> cases d.exchange.close <;> simp
    · rw [List.length_map]
      exact Assembler.length_next_le hd.not_cancelled hd.pool_open
  exact eq_of_length_le_one hlength hb hc

/-! ## The diamond -/

/-- The same device, but for the order in which errors were reported. -/
def Agrees (d e : Device) : Prop :=
  { d with failures := [] } = { e with failures := [] } ∧ d.failures.Perm e.failures

/-- A step of the reader and a step of the assembler can be taken in either order. -/
theorem Orderly.diamond (hd : d.Orderly) (hb : b ∈ d.readerNext) (hc : c ∈ d.assemblerNext) :
    ∃ f ∈ b.assemblerNext, ∃ g ∈ c.readerNext, f.Agrees g := by
  obtain ⟨change, act, hready, rfl, -, hreader⟩ := hd.readerNext hb
  obtain ⟨change', act', hready', rfl, -, hassembler⟩ := hd.assemblerNext hc
  have hopen := hd.pool_open
  refine ⟨_, hassembler _ ⟨rfl, rfl, rfl, rfl, ?_⟩ (act'.ready_apply hready hready'), _,
    hreader _ ⟨rfl, rfl, rfl, rfl, ?_, ?_⟩ (act.ready_apply hready hready'), ?_, ?_⟩
  · simpa [Device.supply] using hopen
  · simp [Device.assemble]
  · simpa [Device.assemble] using hopen
  · have hcomm := Reader.Act.comm hready hready'
    simp [Device.supply, Device.assemble, hcomm]
  · simp only [Device.supply, Device.assemble, List.append_assoc]
    exact (List.perm_append_comm).append_left _

/-! ## Every schedule ends alike -/

theorem Agrees.exists_eq (h : d.Agrees e) :
    ∃ failures, e = { d with failures } ∧ d.failures.Perm failures := by
  refine ⟨e.failures, ?_, h.2⟩
  have hsame := congrArg (fun x : Device => { x with failures := e.failures }) h.1
  exact hsame.symm

/-- Workers do not look at what has been reported. -/
theorem Orderly.next_agrees (hd : d.Orderly) (h : d.Agrees e) (hnext : d' ∈ d.next) :
    ∃ e' ∈ e.next, d'.Agrees e' := by
  obtain ⟨failures, rfl, hperm⟩ := h.exists_eq
  rcases List.mem_append.mp hnext with hreader | hassembler
  · obtain ⟨change, act, hready, rfl, -, hall⟩ := hd.readerNext hreader
    refine ⟨_, List.mem_append_left _ (hall { d with failures } ⟨rfl, rfl, rfl, rfl, rfl,
      hd.pool_open⟩ hready), rfl, ?_⟩
    exact hperm.append_right _
  · obtain ⟨change, act, hready, rfl, -, hall⟩ := hd.assemblerNext hassembler
    refine ⟨_, List.mem_append_right _ (hall { d with failures } ⟨rfl, rfl, rfl, rfl,
      hd.pool_open⟩ hready), rfl, ?_⟩
    exact hperm.append_right _

/-- A device, with its reports taken as a multiset. -/
def view (d : Device) : Device × Multiset Error := ({ d with failures := [] }, d.failures)

theorem view_eq_iff : d.view = e.view ↔ d.Agrees e := by
  simp only [view, Prod.mk.injEq, Multiset.coe_eq_coe, Agrees]

/-- A step of a worker, as far as the view shows it. -/
def Tick (v w : Device × Multiset Error) : Prop :=
  ∃ d d', d.Orderly ∧ Step d d' ∧ d.view = v ∧ d'.view = w

/-- Two steps from the same device lead to the same device, at once or after one more
step each. -/
theorem tick_diamond {u v w : Device × Multiset Error} (hv : Tick u v) (hw : Tick u w) :
    v = w ∨ ∃ x, Tick v x ∧ Tick w x := by
  obtain ⟨d, b, hd, hb, rfl, rfl⟩ := hv
  obtain ⟨e, e', he, hnext, hview, rfl⟩ := hw
  obtain ⟨c, hc, hagrees⟩ := he.next_agrees (view_eq_iff.mp hview) hnext
  rw [view_eq_iff.mpr hagrees]
  have hbo := hd.step hb
  have hco := hd.step hc
  rcases List.mem_append.mp hb with hb | hb <;> rcases List.mem_append.mp hc with hc | hc
  · exact .inl (congrArg view (hd.readerNext_unique hb hc))
  · obtain ⟨f, hf, g, hg, hfg⟩ := hd.diamond hb hc
    exact .inr ⟨f.view, ⟨b, f, hbo, List.mem_append_right _ hf, rfl, rfl⟩,
      c, g, hco, List.mem_append_left _ hg, rfl, (view_eq_iff.mpr hfg).symm⟩
  · obtain ⟨f, hf, g, hg, hfg⟩ := hd.diamond hc hb
    exact .inr ⟨f.view, ⟨b, g, hbo, List.mem_append_left _ hg, rfl, (view_eq_iff.mpr hfg).symm⟩,
      c, f, hco, List.mem_append_right _ hf, rfl, rfl⟩
  · exact .inl (congrArg view (hd.assemblerNext_unique hb hc))

theorem Orderly.run (hd : d.Orderly) (hrun : Run d d') :
    d'.Orderly ∧ Relation.ReflTransGen Tick d.view d'.view := by
  induction hrun with
  | refl => exact ⟨hd, .refl⟩
  | tail _ hstep ih => exact ⟨ih.1.step hstep, ih.2.tail ⟨_, _, ih.1, hstep, rfl, rfl⟩⟩

/-- A device whose workers cannot move goes nowhere. -/
theorem view_eq_of_next {v : Device × Multiset Error} (hend : d.next = [])
    (hticks : Relation.ReflTransGen Tick d.view v) : d.view = v := by
  rcases hticks.cases_head with heq | ⟨w, ⟨e, e', he, hstep, hview, -⟩, -⟩
  · exact heq
  · obtain ⟨d', hnext, -⟩ := he.next_agrees (view_eq_iff.mp hview) hstep
    simp [hend] at hnext

/-- All schedules of the workers come to the same end. -/
theorem Orderly.agrees_of_run (hd : d.Orderly) (hb : Run d b) (hc : Run d c) (hbend : b.next = [])
    (hcend : c.next = []) : b.Agrees c := by
  have hconfluent := Relation.church_rosser (r := Tick) (fun u v w hv hw => ?_)
    (hd.run hb).2 (hd.run hc).2
  · obtain ⟨v, hbv, hcv⟩ := hconfluent
    rw [← view_eq_iff, view_eq_of_next hbend hbv, view_eq_of_next hcend hcv]
  · rcases tick_diamond hv hw with rfl | ⟨x, hvx, hwx⟩
    · exact ⟨v, .refl, .refl⟩
    · exact ⟨x, .single hvx, .single hwx⟩

/-- The chunks and snapshots at hand do not outlast the patience of settling. -/
theorem Orderly.budget_le_patience (hd : d.Orderly) : d.budget ≤ d.patience := by
  obtain ⟨writing, reading, hp⟩ := hd.placed
  have hfree : d.pool.free.length ≤ d.pool.depth := hp.length_place_le (.free, false)
  have hbusy := hp.length_busy_le
  have hroom : d.exchange.room ≤ maxCores := d.exchange.room_le.trans hd.capacity_le
  have hreader := d.reader.phase.budget_le d.pool.size
  have hassembler := d.assembler.phase.budget_le d.pool.size
  have hexit := d.readerExit.rank_le
  have hexit' := d.assemblerExit.rank_le
  have hchunks : (d.pool.size + 14) * (d.pool.free.length + d.exchange.room) ≤
      (d.pool.size + 14) * (d.pool.depth + maxCores) :=
    Nat.mul_le_mul_left _ (Nat.add_le_add hfree hroom)
  have hspent : (d.pool.size + 14) * (d.pool.depth + 64) =
      d.pool.size * d.pool.depth + 64 * d.pool.size + 14 * d.pool.depth + 896 := by ring
  have hallowed : (d.pool.depth + 2 * 64 + 4) * (d.pool.size + 24) =
      d.pool.size * d.pool.depth + 132 * d.pool.size + 24 * d.pool.depth + 3168 := by ring
  simp only [budget, patience, maxCores] at *
  omega

/-! ## Devices that nobody stops -/

theorem create_fresh {source : Source} {cores depth : Int}
    (hcreate : create source cores depth = .ok d) : d.Fresh := by
  unfold create at hcreate
  by_cases hdepth : depth < 1
  · simp [hdepth, bind, Except.bind, throw, throwThe, MonadExceptOf.throw] at hcreate
  cases hpool : Pool.create depth chunkSize with
  | error fault => simp [hdepth, hpool, bind, Except.bind] at hcreate
  | ok pool =>
    cases hexchange : Exchange.create cores with
    | error fault =>
      simp [hdepth, hpool, hexchange, bind, Except.bind] at hcreate
    | ok exchange =>
      have hsize : pool.size = chunkSize := (Pool.placed_create hpool).2.1
      simp only [if_neg hdepth, hpool, hexchange, Assembler.create, if_pos hsize, bind, Except.bind,
        pure, Except.pure, Except.ok.injEq] at hcreate
      subst hcreate
      exact ⟨rfl, rfl, ⟨depth, chunkSize, hpool⟩, ⟨cores, hexchange⟩, rfl, rfl⟩

theorem Fresh.orderly (hfresh : d.Fresh) : d.Orderly := by
  obtain ⟨depth, size, hpool⟩ := hfresh.pool_new
  obtain ⟨cores, hexchange⟩ := hfresh.exchange_new
  obtain ⟨hplaced, -, -, -, hclosed, -⟩ := Pool.placed_create hpool
  exact
    { not_cancelled := hfresh.not_cancelled
      not_abandoned := hfresh.not_abandoned
      pool_open := hclosed
      placed := ⟨_, _, hplaced⟩
      reader_hand := by simp [hfresh.reader_idle, Reader.Phase.hand]
      assembler_hand := by simp [hfresh.assembler_idle, Assembler.Phase.hand]
      capacity_le := Exchange.capacity_create hexchange }

theorem Orderly.withExchange (hd : d.Orderly) {x : Exchange}
    (hcapacity : x.capacity = d.exchange.capacity) : { d with exchange := x }.Orderly :=
  { hd with capacity_le := hcapacity ▸ hd.capacity_le }

theorem Orderly.event (hd : d.Orderly) (hevent : Event d d') : d'.Orderly := by
  cases hevent with
  | start =>
    unfold Device.start
    split
    · exact hd
    · exact
        { hd with
          not_cancelled := hd.not_abandoned
          reader_hand := by simp [Reader.Phase.hand]
          assembler_hand := by simp [Assembler.Phase.hand] }
  | work hstep => exact hd.step hstep
  | feed | finish => exact { hd with }
  | take htake => exact hd.withExchange (Exchange.capacity_take htake)
  | reset t =>
    refine hd.withExchange (Exchange.capacity_update ?_)
    simp [Snapshot.reset, Snapshot.cores]
  | giveBack t hback => exact hd.withExchange (Exchange.capacity_giveBack hback)

theorem Orderly.reach (hd : d.Orderly) (hreach : Reach d d') : d'.Orderly := by
  induction hreach with
  | refl => exact hd
  | tail _ hevent ih => exact ih.event hevent

/-- The workers come to an end, and to the same end in whatever order they work. -/
structure Settles (d : Device) : Prop where
  /-- No schedule goes on for ever. -/
  ends : ¬ Endless Step d
  /-- Any two schedules that leave nothing to do end alike. -/
  agree : ∀ b c, Run d b → Run d c → b.next = [] → c.next = [] → b.Agrees c
  /-- Settling the device is such a schedule. -/
  settle_run : Run d d.settle
  settle_next : d.settle.next = []

theorem Orderly.settles (hd : d.Orderly) : d.Settles where
  ends := step_ends d
  agree := fun _ _ hb hc hbend hcend => hd.agrees_of_run hb hc hbend hcend
  settle_run := (run_settle_go d.patience d).1
  settle_next := (run_settle_go d.patience d).2 hd.budget_le_patience

/-- Whatever the hardware delivers and the taker does, the workers end in a state that
does not depend on the order of their steps. -/
theorem settles_of_reach (d₀ : Device) (hfresh : d₀.Fresh) (d : Device) (hreach : Reach d₀ d) :
    d.Settles :=
  (hfresh.orderly.reach hreach).settles

/-- Two cores share a single chunk, the second record repeats the core of the first, and
the stream ends inside a third: both workers fail, in either order. -/
theorem settles_of_reach_two_failures :
    ∃ d₀, create { queue := List.replicate 600 0, tail := .ended .finished } 2 1 = .ok d₀ ∧
      ∀ d, Run d₀.start d → d.next = [] → d.Agrees d₀.start.settle := by
  obtain ⟨d₀, hcreate, -⟩ := create_sound
    { queue := List.replicate 600 0, tail := .ended .finished } [] (show (1 : Int) ≤ 2 by decide)
    (by decide) (show (1 : Int) ≤ 1 by decide) (by decide) rfl (.inr ⟨rfl, rfl⟩)
  have hsettles := settles_of_reach d₀ (create_fresh hcreate) d₀.start (.single .start)
  exact ⟨d₀, hcreate, fun d hrun hend =>
    hsettles.agree d _ hrun hsettles.settle_run hend hsettles.settle_next⟩

end Device

end Cosim

import Cosim.Proofs.Bookkeeping
import Cosim.Proofs.Schedules

/-!
# What becomes of each chunk

The assembler deals with one chunk at a time.  Watching the device from outside, step by
step, one sees which chunk that is, when it is given back and what comes into the snapshot
meanwhile.

* `Recycling` is a device that is watched.  `Recycling.after` writes on, from what a step
  has changed, the ledger of the pool and what has become of each chunk so far.
* `Recycling.Ends` lists the ways in which dealing with a chunk can end, `Recycling.Stage`
  how far it can have come.
* `Recycling.Inv` says that what is written down is right.  `Inv.assembler` is its step
  lemma for the assembler, with one lemma for each phase in which it deals with a chunk.
-/

namespace Cosim

/-- Before the start the workers are idle and nobody has cancelled them. -/
def Device.Dormant (d : Device) : Prop :=
  d.started = false →
    d.reader.phase = .idle ∧ d.assembler.phase = .idle ∧ d.signals.cancelled = false

/-! ## Watching a device -/

namespace Assembler.Phase

/-- The assembler deals with a chunk. -/
def deals : Phase → Bool
  | .inspect _ | .claim _ _ | .unpack _ _ | .file _ _ | .deliver | .count => true
  | _ => false

/-- The error that dealing with a chunk has ended with. -/
def failure : Phase → Option Error
  | .failed e => some e
  | _ => none

/-- The record that has been copied out of a chunk and still has to be filed. -/
def copied : Phase → List Stream.Record
  | .file core state => [(core, state)]
  | _ => []

theorem hand_of_not_deals {phase : Phase} (hdeals : phase.deals = false) : phase.hand = [] := by
  cases phase <;> first | rfl | cases hdeals

/-- The assembler has one chunk at most. -/
theorem length_hand_le (phase : Phase) : phase.hand.length ≤ 1 := by
  cases phase <;> simp [hand]

end Assembler.Phase

/-- A chunk that the assembler deals with, and what has come of it. -/
structure Recycling.Call where
  chunk : Nat
  /-- The chunks that were given back meanwhile. -/
  released : List Nat := []
  /-- The records that came into the snapshot meanwhile. -/
  filed : List Stream.Record := []
  /-- The error that it has ended with. -/
  failure : Option Error := none
  /-- The snapshot that was being filled when it ended. -/
  snapshot : Option Snapshot := none
deriving DecidableEq

/-- A device that is watched. -/
structure Recycling where
  device : Device
  /-- The calls on its pool. -/
  entries : List Ledger.Entry := []
  /-- The chunks that the assembler has dealt with, in order. -/
  past : List Recycling.Call := []
  /-- The chunk that it deals with. -/
  call : Option Recycling.Call := none

namespace Recycling

/-- A call goes on while chunks are given back and records come in. -/
def Call.note (c : Call) (entries : List Ledger.Entry) (filed : List Stream.Record) : Call :=
  { c with
    released := c.released ++ Ledger.released entries
    filed := c.filed ++ filed }

/-- A call ends with a step of a device to another phase. -/
def Call.close (c : Call) (d : Device) (phase : Assembler.Phase) : Call :=
  { c with
    failure := phase.failure
    snapshot := d.assembler.current.map d.exchange.snapshot }

/-- The call that a phase begins. -/
def opened : Assembler.Phase → Option Call
  | .inspect h => some { chunk := h }
  | _ => none

/-- What is known once the device has become another.  What happens while the assembler
deals with a chunk is noted with that chunk, until it deals with it no more. -/
def after (s : Recycling) (d : Device) : Recycling :=
  let entries := Ledger.observed s.device.pool d.pool
  let call := s.call.map fun c => c.note entries (s.device.gained d)
  let phase := d.assembler.phase
  { device := d
    entries := s.entries ++ entries
    past :=
      if phase.deals then s.past
      else s.past ++ (call.map fun c => c.close s.device phase).toList
    call := if phase.deals then call.or (opened phase) else none }

/-- One thing that happens to a watched device: a step of a worker, of the hardware or of
the taker, a report that is taken note of, or one of the actions that stop the device, at
any time and in any order. -/
inductive Move : Recycling → Recycling → Prop where
  | event {s d} (hevent : Device.Event s.device d) : Move s (s.after d)
  | reported {s before e later} (hfailures : s.device.failures = before ++ e :: later) :
      Move s (s.after { s.device with failures := before ++ later })
  | abandon {s} : Move s (s.after s.device.abandon)
  | begin {s} : Move s (s.after { s.device with stopped := true })
  | halt {s} (action : Device.Halt) : Move s (s.after (s.device.halt action))

/-- Any number of things, in any order. -/
abbrev Reach : Recycling → Recycling → Prop := Relation.ReflTransGen Move

/-- How dealing with a chunk that holds a record can end: on every path the chunk was given
back, once, and nothing but the record was filed. -/
inductive Ends (cores : Nat) (record : Stream.Record) (cancelled : Bool) : Call → Prop where
  | filed {h snapshot} (hcore : record.1 < cores) :
      Ends cores record cancelled { chunk := h, released := [h], filed := [record], snapshot }
  | badCore {h snapshot} (hcore : cores ≤ record.1) :
      Ends cores record cancelled
        { chunk := h, released := [h], failure := some (.coreIndex record.1 cores), snapshot }
  | noClaim {h snapshot} (hcore : record.1 < cores) (hcancelled : cancelled = true) :
      Ends cores record cancelled
        { chunk := h, released := [h], failure := some .cancelled, snapshot }
  | noPut {h} {snapshot : Snapshot} {e : Error} (hcore : record.1 < cores)
      (hput : snapshot.put record.1 record.2 = .error e) :
      Ends cores record cancelled
        { chunk := h, released := [h], failure := some e, snapshot := some snapshot }

/-- How far dealing with a chunk that holds a record has come. -/
inductive Stage (cores : Nat) (record : Stream.Record) : Assembler.Phase → Call → Prop where
  | inspect {h} : Stage cores record (.inspect h) { chunk := h }
  | claim {h} (hcore : record.1 < cores) : Stage cores record (.claim h record.1) { chunk := h }
  | unpack {h} (hcore : record.1 < cores) : Stage cores record (.unpack h record.1) { chunk := h }
  | file {h} (hcore : record.1 < cores) :
      Stage cores record (.file record.1 record.2) { chunk := h, released := [h] }
  | deliver {h} (hcore : record.1 < cores) :
      Stage cores record .deliver { chunk := h, released := [h], filed := [record] }
  | count {h} (hcore : record.1 < cores) :
      Stage cores record .count { chunk := h, released := [h], filed := [record] }

/-- The ledger of a watched device. -/
def ledger (s : Recycling) : Ledger where
  pool := s.device.pool
  entries := s.entries

theorem observe_pool (s : Recycling) : s.ledger.observe s.device.pool = s.ledger :=
  s.ledger.observe_self

/-- The assembler deals with a chunk that was published with these bytes. -/
structure Dealing (cores : Nat) (s : Recycling) (c : Call) (bytes : List UInt8) : Prop where
  published : (Ledger.published s.entries)[s.past.length]? = some (c.chunk, bytes)
  stage : Stage cores (Stream.parse bytes) s.device.assembler.phase c
  bytes_eq : ∀ h ∈ s.device.assembler.phase.hand, (s.device.pool.slot h).bytes = bytes

/-- What is known about a watched device is right. -/
structure Inv (cores depth : Nat) (s : Recycling) : Prop where
  attended : s.ledger.Attended depth s.device.reader s.device.assembler.phase.hand
  size_eq : s.device.pool.size = chunkSize
  cores_eq : s.device.assembler.cores = cores
  dormant : s.device.Dormant
  fetched_eq : Ledger.fetched s.entries = (s.past ++ s.call.toList).map Call.chunk
  released_eq : Ledger.released s.entries = (s.past ++ s.call.toList).flatMap Call.released
  past : ∀ (k : Nat) c, s.past[k]? = some c → ∃ bytes,
    (Ledger.published s.entries)[k]? = some (c.chunk, bytes) ∧
      Ends cores (Stream.parse bytes) s.device.signals.cancelled c
  call_none : s.call = none → s.device.assembler.phase.deals = false
  call_some : ∀ c, s.call = some c → ∃ bytes, s.Dealing cores c bytes

variable {cores depth k : Nat} {s s' : Recycling} {d : Device} {c : Call} {record : Stream.Record}

theorem Stage.deals {phase : Assembler.Phase} (hstage : Stage cores record phase c) :
    phase.deals = true := by
  cases hstage <;> rfl

theorem Ends.mono {cancelled cancelled' : Bool} (hends : Ends cores record cancelled c)
    (hmono : cancelled = true → cancelled' = true) : Ends cores record cancelled' c := by
  cases hends with
  | filed hcore => exact .filed hcore
  | badCore hcore => exact .badCore hcore
  | noClaim hcore hcancelled => exact .noClaim hcore (hmono hcancelled)
  | noPut hcore hput => exact .noPut hcore hput

/-! ## What `after` comes to -/

/-- The assembler goes on with its chunk. -/
theorem after_deals (hcall : s.call = some c) (hdeals : d.assembler.phase.deals = true) :
    s.after d =
      { device := d
        entries := s.entries ++ Ledger.observed s.device.pool d.pool
        past := s.past
        call := some (c.note (Ledger.observed s.device.pool d.pool) (s.device.gained d)) } := by
  simp [after, hcall, hdeals]

/-- The assembler is done with its chunk. -/
theorem after_ends (hcall : s.call = some c) (hdeals : d.assembler.phase.deals = false) :
    s.after d =
      { device := d
        entries := s.entries ++ Ledger.observed s.device.pool d.pool
        past := s.past ++ [(c.note (Ledger.observed s.device.pool d.pool)
          (s.device.gained d)).close s.device d.assembler.phase]
        call := none } := by
  simp [after, hcall, hdeals]

/-- The assembler has a chunk or none, as before, and nothing is noted with it. -/
theorem after_pass (hcall : s.call = none → d.assembler.phase.deals = false)
    (hdeals : ∀ c, s.call = some c → d.assembler.phase.deals = true)
    (hreleased : Ledger.released (Ledger.observed s.device.pool d.pool) = [])
    (hgained : s.device.gained d = []) :
    s.after d =
      { s with device := d, entries := s.entries ++ Ledger.observed s.device.pool d.pool } := by
  cases hs : s.call with
  | none => simp [after, hs, hcall hs]
  | some c => simp [after, hs, hdeals c hs, Call.note, hreleased, hgained]

/-! ## Steps that do not concern the chunk of the assembler -/

namespace Inv

/-- A call is under way exactly while the assembler deals with a chunk. -/
theorem isSome_call (inv : s.Inv cores depth) :
    s.call.isSome = s.device.assembler.phase.deals := by
  cases hcall : s.call with
  | none => simp [inv.call_none hcall]
  | some c =>
    obtain ⟨bytes, hdealing⟩ := inv.call_some c hcall
    simp [hdealing.stage.deals]

/-- What is known of the chunks that have been dealt with stays right. -/
theorem past_append (inv : s.Inv cores depth) (more : List Ledger.Entry) {cancelled : Bool}
    (hcancelled : s.device.signals.cancelled = true → cancelled = true) (k : Nat) (c : Call)
    (hk : s.past[k]? = some c) : ∃ bytes,
      (Ledger.published (s.entries ++ more))[k]? = some (c.chunk, bytes) ∧
        Ends cores (Stream.parse bytes) cancelled c := by
  obtain ⟨bytes, hpublished, hends⟩ := inv.past k c hk
  exact ⟨bytes, Ledger.published_append hpublished, hends.mono hcancelled⟩

/-- What happens to a device aside from the chunk that its assembler deals with. -/
theorem pass (inv : s.Inv cores depth)
    (hphase : d.assembler.phase = s.device.assembler.phase ∨
      s.device.assembler.phase.deals = false ∧ d.assembler.phase.deals = false)
    (hcores : d.assembler.cores = s.device.assembler.cores)
    (hattended : (s.ledger.observe d.pool).Attended depth d.reader s.device.assembler.phase.hand)
    (hspares : s.ledger.Spares d.pool s.device.assembler.phase.hand)
    (hgained : s.device.gained d = []) (hdormant : d.Dormant)
    (hcancelled : s.device.signals.cancelled = true → d.signals.cancelled = true) :
    (s.after d).Inv cores depth := by
  -- With a chunk the assembler stays in its phase; without one it gets none.
  have hdeals : d.assembler.phase.deals = s.device.assembler.phase.deals := by
    rcases hphase with hsame | ⟨hrests, hrests'⟩
    · rw [hsame]
    · rw [hrests, hrests']
  have hhand : d.assembler.phase.hand = s.device.assembler.phase.hand := by
    rcases hphase with hsame | ⟨hrests, hrests'⟩
    · rw [hsame]
    · rw [Assembler.Phase.hand_of_not_deals hrests, Assembler.Phase.hand_of_not_deals hrests']
  have hfetched : Ledger.fetched (Ledger.observed s.device.pool d.pool) = [] := hspares.fetched
  have hreleased : Ledger.released (Ledger.observed s.device.pool d.pool) = [] := hspares.released
  have hafter := after_pass (fun hnone => hdeals.trans (inv.call_none hnone))
    (fun c hc => by rw [hdeals, ← inv.isSome_call, hc]; rfl) hreleased hgained
  rw [hafter]
  exact
    { attended := by rw [hhand]; exact hattended
      size_eq := hspares.size_eq.trans inv.size_eq
      cores_eq := hcores.trans inv.cores_eq
      dormant := hdormant
      fetched_eq := by rw [Ledger.fetched_append, hfetched, List.append_nil, inv.fetched_eq]
      released_eq := by rw [Ledger.released_append, hreleased, List.append_nil, inv.released_eq]
      past := inv.past_append _ hcancelled
      call_none := fun hnone => hdeals.trans (inv.call_none hnone)
      call_some := fun c hc => by
        obtain ⟨bytes, hdealing⟩ := inv.call_some c hc
        refine ⟨bytes, Ledger.published_append hdealing.published, ?_, fun h hh => ?_⟩
        · rcases hphase with hsame | ⟨hrests, -⟩
          · exact hsame ▸ hdealing.stage
          · rw [hdealing.stage.deals] at hrests
            cases hrests
        · rw [hhand] at hh
          exact (hspares.bytes h hh).trans (hdealing.bytes_eq h hh) }

/-! ## Steps of the assembler -/

variable {a : Assembler} {p : Pool} {x : Exchange} {h : Nat} {bytes : List UInt8}

/-- The assembler gets the chunk that was published when as many had been dealt with. -/
theorem fetch (inv : s.Inv cores depth) (hstarted : s.device.started = true)
    (hphase : s.device.assembler.phase = .acquire)
    (hok : .ok (h, p) ∈ s.device.pool.busyOutcomes) :
    (s.after { s.device with
      assembler := s.device.assembler.goto (.inspect h), pool := p }).Inv cores depth := by
  have hcall : s.call = none := by
    have hcall := inv.isSome_call
    rw [hphase] at hcall
    exact Option.not_isSome_iff_eq_none.mp (by simp [hcall, Assembler.Phase.deals])
  have hattended := inv.attended
  rw [hphase] at hattended
  obtain ⟨hobserved, hattended', hsize, hpublished⟩ := hattended.fetch hok
  rw [Ledger.observe, hobserved] at hattended'
  change Ledger.observed s.device.pool p = [.fetched h] at hobserved
  -- No call is under way, so as many chunks have been acquired as have been dealt with.
  have hdealt : (Ledger.fetched s.entries).length = s.past.length := by
    rw [inv.fetched_eq, hcall]
    simp
  have hafter : s.after { s.device with
        assembler := s.device.assembler.goto (.inspect h), pool := p } =
      { device := { s.device with assembler := s.device.assembler.goto (.inspect h), pool := p }
        entries := s.entries ++ [.fetched h]
        past := s.past
        call := some { chunk := h } } := by
    simp [after, hcall, hobserved, Assembler.goto, Assembler.Phase.deals, opened]
  rw [hafter]
  exact
    { attended := hattended'
      size_eq := hsize.trans inv.size_eq
      cores_eq := inv.cores_eq
      dormant := fun hnot => by simp [hstarted] at hnot
      fetched_eq := by
        rw [Ledger.fetched_append, inv.fetched_eq, hcall]
        simp [Ledger.fetched]
      released_eq := by
        rw [Ledger.released_append, inv.released_eq, hcall]
        simp [Ledger.released]
      past := inv.past_append _ id
      call_none := by simp
      call_some := fun c hc => by
        obtain rfl := Option.some.inj hc
        refine ⟨(p.slot h).bytes, Ledger.published_append (hdealt ▸ hpublished), .inspect, ?_⟩
        intro g hg
        rw [List.mem_singleton.mp hg] }

/-- The call that is under way has been accounted for, and what is noted with it will be. -/
theorem accounts (inv : s.Inv cores depth) (hcall : s.call = some c) (more : List Ledger.Entry)
    (hfetched : Ledger.fetched more = []) :
    Ledger.fetched (s.entries ++ more) = s.past.map Call.chunk ++ [c.chunk] ∧
      Ledger.released (s.entries ++ more) =
        s.past.flatMap Call.released ++ (c.released ++ Ledger.released more) := by
  rw [Ledger.fetched_append, Ledger.released_append, inv.fetched_eq, inv.released_eq, hcall,
    hfetched]
  simp

/-- The assembler goes on with its chunk. -/
theorem goOn (inv : s.Inv cores depth) (hcall : s.call = some c)
    (hdealing : s.Dealing cores c bytes) (hstarted : d.started = true)
    (hsignals : d.signals = s.device.signals)
    (hcores : d.assembler.cores = s.device.assembler.cores)
    (hattended : (s.ledger.observe d.pool).Attended depth d.reader d.assembler.phase.hand)
    (hsize : d.pool.size = s.device.pool.size)
    (hfetched : Ledger.fetched (Ledger.observed s.device.pool d.pool) = [])
    (hstage : Stage cores (Stream.parse bytes) d.assembler.phase
      (c.note (Ledger.observed s.device.pool d.pool) (s.device.gained d)))
    (hbytes : ∀ h ∈ d.assembler.phase.hand, (d.pool.slot h).bytes = bytes) :
    (s.after d).Inv cores depth := by
  obtain ⟨haccount, haccount'⟩ := inv.accounts hcall _ hfetched
  rw [after_deals hcall hstage.deals]
  exact
    { attended := hattended
      size_eq := hsize.trans inv.size_eq
      cores_eq := hcores.trans inv.cores_eq
      dormant := fun hnot => by simp [hstarted] at hnot
      fetched_eq := by simpa [Call.note] using haccount
      released_eq := by simpa [Call.note] using haccount'
      past := inv.past_append _ fun hc => by rw [hsignals, hc]
      call_none := by simp
      call_some := fun c' hc => by
        obtain rfl := Option.some.inj hc
        exact ⟨bytes, Ledger.published_append hdealing.published, hstage, hbytes⟩ }

/-- The assembler is done with its chunk. -/
theorem ends (inv : s.Inv cores depth) (hcall : s.call = some c)
    (hdealing : s.Dealing cores c bytes) (hstarted : d.started = true)
    (hsignals : d.signals = s.device.signals)
    (hcores : d.assembler.cores = s.device.assembler.cores)
    (hdeals : d.assembler.phase.deals = false)
    (hattended : (s.ledger.observe d.pool).Attended depth d.reader [])
    (hsize : d.pool.size = s.device.pool.size)
    (hfetched : Ledger.fetched (Ledger.observed s.device.pool d.pool) = [])
    (hends : Ends cores (Stream.parse bytes) s.device.signals.cancelled
      ((c.note (Ledger.observed s.device.pool d.pool) (s.device.gained d)).close s.device
        d.assembler.phase)) :
    (s.after d).Inv cores depth := by
  obtain ⟨haccount, haccount'⟩ := inv.accounts hcall _ hfetched
  rw [after_ends hcall hdeals]
  exact
    { attended := by rw [Assembler.Phase.hand_of_not_deals hdeals]; exact hattended
      size_eq := hsize.trans inv.size_eq
      cores_eq := hcores.trans inv.cores_eq
      dormant := fun hnot => by simp [hstarted] at hnot
      fetched_eq := by simpa [Call.note, Call.close] using haccount
      released_eq := by simpa [Call.note, Call.close] using haccount'
      past := fun k c' hk => by
        rw [hsignals]
        rw [List.getElem?_append] at hk
        split at hk
        · exact inv.past_append _ id k c' hk
        · have hlast := (List.getElem?_eq_some_iff.mp hk).1
          obtain rfl : k = s.past.length := by
            rw [List.length_singleton] at hlast
            omega
          rw [Nat.sub_self] at hk
          obtain rfl := Option.some.inj hk
          exact ⟨bytes, Ledger.published_append hdealing.published, hends⟩
      call_none := fun _ => hdeals
      call_some := by simp }

/-- The chunk of the assembler can be given back, which shows as one entry. -/
theorem release (inv : s.Inv cores depth) (hhand : s.device.assembler.phase.hand = [h])
    (x : Exchange) (phase : Assembler.Phase) (failure : Error → Error) :
    ∃ p, s.device.assembler.releasing s.device.pool x h phase failure =
        (s.device.assembler.goto phase, p, x) ∧
      Ledger.observed s.device.pool p = [.released h] ∧
      (s.ledger.observe p).Attended depth s.device.reader [] ∧ p.size = s.device.pool.size := by
  obtain ⟨p, hok, hobserved, hattended, hsize⟩ := (hhand ▸ inv.attended).release
  refine ⟨p, ?_, hobserved, hattended, hsize⟩
  change s.device.pool.release h = .ok p at hok
  simp only [Assembler.releasing, hok]

/-- The assembler gives its chunk back and is done with it. -/
theorem releaseAndEnd (inv : s.Inv cores depth) (hcall : s.call = some c)
    (hdealing : s.Dealing cores c bytes) (hstarted : s.device.started = true)
    (hhand : s.device.assembler.phase.hand = [h]) {e : Error}
    (hmem : (a, p, x) = s.device.assembler.giveUp s.device.pool s.device.exchange h e)
    (hends : Ends cores (Stream.parse bytes) s.device.signals.cancelled
      ({ c with released := c.released ++ [h] }.close s.device (.failed e))) :
    (s.after { s.device with assembler := a, pool := p, exchange := x }).Inv cores depth := by
  obtain ⟨p', hreleasing, hobserved, hattended, hsize⟩ :=
    inv.release hhand s.device.exchange (.failed e) fun _ => e
  rw [Assembler.giveUp, hreleasing, Prod.mk.injEq, Prod.mk.injEq] at hmem
  obtain ⟨rfl, rfl, rfl⟩ := hmem
  refine inv.ends hcall hdealing hstarted rfl rfl rfl hattended hsize (by rw [hobserved]; rfl) ?_
  rw [hobserved, Device.gained_of_snapshots]
  · simpa [Call.note, Ledger.released, Assembler.goto] using hends
  · rfl

/-- The assembler goes on without touching the pool. -/
theorem goOnWith (inv : s.Inv cores depth) (hcall : s.call = some c)
    (hdealing : s.Dealing cores c bytes) (hstarted : s.device.started = true)
    (hcores : a.cores = s.device.assembler.cores)
    (hhand : a.phase.hand = s.device.assembler.phase.hand)
    (hstage : Stage cores (Stream.parse bytes) a.phase
      { c with
        filed := c.filed ++ s.device.gained { s.device with assembler := a, exchange := x } }) :
    (s.after { s.device with assembler := a, exchange := x }).Inv cores depth := by
  refine inv.goOn hcall hdealing hstarted rfl hcores ?_ rfl
    (by rw [Ledger.observed_self]; rfl) ?_ ?_
  · rw [observe_pool, hhand]
    exact inv.attended
  · simpa [Call.note, Ledger.released] using hstage
  · rw [hhand]
    exact hdealing.bytes_eq

/-- The assembler is done without touching the pool. -/
theorem endWith (inv : s.Inv cores depth) (hcall : s.call = some c)
    (hdealing : s.Dealing cores c bytes) (hstarted : s.device.started = true)
    (hcores : a.cores = s.device.assembler.cores) (hdeals : a.phase.deals = false)
    (hhand : s.device.assembler.phase.hand = [])
    (hends : Ends cores (Stream.parse bytes) s.device.signals.cancelled
      ({ c with
        filed := c.filed ++ s.device.gained { s.device with assembler := a, exchange := x } }.close
          s.device a.phase)) :
    (s.after { s.device with assembler := a, exchange := x }).Inv cores depth := by
  refine inv.ends hcall hdealing hstarted rfl hcores hdeals ?_ rfl
    (by rw [Ledger.observed_self]; rfl) ?_
  · rw [observe_pool, ← hhand]
    exact inv.attended
  · simpa [Call.note, Ledger.released] using hends

/-- The assembler has no chunk and moves on. -/
theorem rest (inv : s.Inv cores depth) (hstarted : s.device.started = true)
    (hrests : s.device.assembler.phase.deals = false) {phase : Assembler.Phase}
    (hphase : phase.deals = false) :
    (s.after { s.device with assembler := s.device.assembler.goto phase }).Inv cores depth := by
  refine inv.pass (.inr ⟨hrests, hphase⟩) rfl ?_ (.refl s.ledger _)
    (Device.gained_of_snapshots rfl) (fun hnot => by simp [hstarted] at hnot) id
  rw [observe_pool]
  exact inv.attended

/-- In a phase that deals with a chunk there is a call, which has come that far. -/
theorem exists_dealing (inv : s.Inv cores depth) {phase : Assembler.Phase}
    (hphase : s.device.assembler.phase = phase) (hdeals : phase.deals = true) :
    ∃ c bytes, s.call = some c ∧ s.Dealing cores c bytes ∧
      Stage cores (Stream.parse bytes) phase c ∧ s.device.assembler.phase.hand = phase.hand := by
  subst hphase
  obtain ⟨c, hcall⟩ := Option.isSome_iff_exists.mp (inv.isSome_call.trans hdeals)
  obtain ⟨bytes, hdealing⟩ := inv.call_some c hcall
  exact ⟨c, bytes, hcall, hdealing, hdealing.stage, rfl⟩

theorem inspect (inv : s.Inv cores depth) (hstarted : s.device.started = true)
    (hphase : s.device.assembler.phase = .inspect h)
    (hmem : (a, p, x) ∈ s.device.assembler.next s.device.signals s.device.pool s.device.exchange) :
    (s.after { s.device with assembler := a, pool := p, exchange := x }).Inv cores depth := by
  obtain ⟨c, bytes, hcall, hdealing, hstage, hhand⟩ := inv.exists_dealing hphase rfl
  cases hstage
  have hbytes := hdealing.bytes_eq h (by rw [hhand]; exact List.mem_singleton.mpr rfl)
  have hcore : ((s.device.pool.slot h).bytes.getD recordSize 0).toNat =
      (Stream.parse bytes).1 := by
    rw [hbytes]
    rfl
  simp only [Assembler.next, hphase, hcore, inv.cores_eq] at hmem
  split at hmem
  · rename_i hbad
    exact inv.releaseAndEnd hcall hdealing hstarted hhand (List.mem_singleton.mp hmem)
      (.badCore (by exact_mod_cast hbad))
  · rename_i hgood
    have hlt : (Stream.parse bytes).1 < cores := by omega
    by_cases hcurrent : s.device.assembler.current.isSome = true
    · rw [if_pos hcurrent, List.mem_singleton, Prod.mk.injEq, Prod.mk.injEq] at hmem
      obtain ⟨rfl, rfl, rfl⟩ := hmem
      refine inv.goOnWith hcall hdealing hstarted rfl hhand.symm ?_
      rw [Device.gained_of_snapshots]
      · exact .unpack hlt
      · rfl
    · rw [if_neg hcurrent, List.mem_singleton, Prod.mk.injEq, Prod.mk.injEq] at hmem
      obtain ⟨rfl, rfl, rfl⟩ := hmem
      refine inv.goOnWith hcall hdealing hstarted rfl hhand.symm ?_
      rw [Device.gained_of_snapshots]
      · exact .claim hlt
      · rfl

theorem claim (inv : s.Inv cores depth) (hstarted : s.device.started = true) {core : Nat}
    (hphase : s.device.assembler.phase = .claim h core)
    (hmem : (a, p, x) ∈ s.device.assembler.next s.device.signals s.device.pool s.device.exchange) :
    (s.after { s.device with assembler := a, pool := p, exchange := x }).Inv cores depth := by
  obtain ⟨c, bytes, hcall, hdealing, hstage, hhand⟩ := inv.exists_dealing hphase rfl
  cases hstage with
  | claim hcore =>
    simp only [Assembler.next, hphase, List.mem_append] at hmem
    rcases hmem with hclaimed | hcancelled
    · cases hempty : s.device.exchange.empty with
      | none => simp [Exchange.claim, hempty] at hclaimed
      | some t =>
        simp only [Exchange.claim, hempty, Option.map_some, List.mem_singleton,
          Prod.mk.injEq] at hclaimed
        obtain ⟨rfl, rfl, rfl⟩ := hclaimed
        refine inv.goOnWith hcall hdealing hstarted rfl hhand.symm ?_
        rw [Device.gained_of_snapshots]
        · exact .unpack hcore
        · rfl
    · split at hcancelled
      · rename_i hsignal
        exact inv.releaseAndEnd hcall hdealing hstarted hhand (List.mem_singleton.mp hcancelled)
          (.noClaim hcore hsignal)
      · simp at hcancelled

/-- The record is copied out of the chunk before the chunk is given back. -/
theorem unpack (inv : s.Inv cores depth) (hstarted : s.device.started = true) {core : Nat}
    (hphase : s.device.assembler.phase = .unpack h core)
    (hmem : (a, p, x) ∈ s.device.assembler.next s.device.signals s.device.pool s.device.exchange) :
    (s.after { s.device with assembler := a, pool := p, exchange := x }).Inv cores depth := by
  obtain ⟨c, bytes, hcall, hdealing, hstage, hhand⟩ := inv.exists_dealing hphase rfl
  cases hstage with
  | unpack hcore =>
    have hbytes := hdealing.bytes_eq h (by rw [hhand]; exact List.mem_singleton.mpr rfl)
    simp only [Assembler.next, hphase, List.mem_singleton, hbytes] at hmem
    obtain ⟨p', hreleasing, hobserved, hattended, hsize⟩ :=
      inv.release hhand s.device.exchange (.file (Stream.parse bytes).1 (Stream.parse bytes).2) id
    obtain ⟨rfl, rfl, rfl⟩ : a = _ ∧ p = p' ∧ x = _ := by
      simpa only [Prod.mk.injEq] using hmem.trans hreleasing
    refine inv.goOn hcall hdealing hstarted rfl rfl hattended hsize (by rw [hobserved]; rfl) ?_
      (by simp [Assembler.goto, Assembler.Phase.hand])
    rw [hobserved, Device.gained_of_snapshots]
    · exact .file hcore
    · rfl

theorem file (inv : s.Inv cores depth) (hstarted : s.device.started = true) {core : Nat}
    {state : CoreState} (hphase : s.device.assembler.phase = .file core state)
    (hmem : (a, p, x) ∈ s.device.assembler.next s.device.signals s.device.pool s.device.exchange) :
    (s.after { s.device with assembler := a, pool := p, exchange := x }).Inv cores depth := by
  obtain ⟨c, bytes, hcall, hdealing, hstage, hhand⟩ := inv.exists_dealing hphase rfl
  cases hstage with
  | file hcore =>
    simp only [Assembler.next, hphase] at hmem
    split at hmem
    · simp at hmem
    rename_i t hcurrent
    split at hmem
    · rename_i e hput
      simp only [List.mem_singleton, Prod.mk.injEq] at hmem
      obtain ⟨rfl, rfl, rfl⟩ := hmem
      refine inv.endWith hcall hdealing hstarted rfl rfl hhand ?_
      rw [Device.gained_of_snapshots, Call.close, hcurrent]
      · exact .noPut hcore (Exchange.put_error hput)
      · rfl
    · rename_i x' hput
      -- The record comes in with this step, whether or not the snapshot is complete with it.
      have hgained : ∀ (a' : Assembler) (x'' : Exchange),
          (x''.snapshot t).slots = (x'.snapshot t).slots →
          s.device.gained { s.device with assembler := a', exchange := x'' } =
            [Stream.parse bytes] := by
        intro a' x'' hslots
        simp only [Device.gained, hcurrent, Option.elim_some]
        exact Exchange.gained_put hput hslots
      split at hmem
      · rename_i x'' hstamp
        simp only [List.mem_singleton, Prod.mk.injEq] at hmem
        obtain ⟨rfl, rfl, rfl⟩ := hmem
        refine inv.goOnWith hcall hdealing hstarted rfl hhand.symm ?_
        rw [hgained _ _ (Exchange.slots_stamp hstamp)]
        exact .deliver hcore
      · simp only [List.mem_singleton, Prod.mk.injEq] at hmem
        obtain ⟨rfl, rfl, rfl⟩ := hmem
        refine inv.endWith hcall hdealing hstarted rfl rfl hhand ?_
        rw [hgained _ _ rfl]
        exact .filed hcore

theorem deliver (inv : s.Inv cores depth) (hstarted : s.device.started = true)
    (hphase : s.device.assembler.phase = .deliver)
    (hmem : (a, p, x) ∈ s.device.assembler.next s.device.signals s.device.pool s.device.exchange) :
    (s.after { s.device with assembler := a, pool := p, exchange := x }).Inv cores depth := by
  obtain ⟨c, bytes, hcall, hdealing, hstage, hhand⟩ := inv.exists_dealing hphase rfl
  cases hstage with
  | deliver hcore =>
    simp only [Assembler.next, hphase] at hmem
    split at hmem
    · simp at hmem
    rename_i t hcurrent
    split at hmem
    · rename_i x' hoffer
      simp only [List.mem_singleton, Prod.mk.injEq] at hmem
      obtain ⟨rfl, rfl, rfl⟩ := hmem
      refine inv.goOnWith hcall hdealing hstarted rfl hhand.symm ?_
      rw [Device.gained_of_snapshots]
      · exact .count hcore
      · unfold Exchange.offer at hoffer
        split at hoffer
        · cases hoffer
        split at hoffer
        · cases hoffer
        obtain rfl := Exchange.Delivery.done.inj hoffer
        rfl
    all_goals simp at hmem

/-- A step of the assembler. -/
theorem assembler (inv : s.Inv cores depth)
    (hmem : (a, p, x) ∈ s.device.assembler.next s.device.signals s.device.pool s.device.exchange) :
    (s.after { s.device with assembler := a, pool := p, exchange := x }).Inv cores depth := by
  have hstarted : s.device.started = true := by
    by_contra hnot
    obtain ⟨-, hidle, -⟩ := inv.dormant (Bool.not_eq_true _ ▸ hnot)
    simp [Assembler.next, hidle] at hmem
  cases hphase : s.device.assembler.phase with
  | idle => simp [Assembler.next, hphase] at hmem
  | returned failure => simp [Assembler.next, hphase] at hmem
  | start =>
    simp only [Assembler.next, hphase, List.mem_singleton, Prod.mk.injEq] at hmem
    obtain ⟨rfl, rfl, rfl⟩ := hmem
    refine inv.rest hstarted (by rw [hphase]; rfl) ?_
    split <;> rfl
  | acquire =>
    have hmem' := hmem
    simp only [Assembler.next, hphase, List.mem_append, List.mem_map] at hmem'
    rcases hmem' with ⟨outcome, houtcome, heq⟩ | hcancelled
    · cases outcome with
      | error e =>
        simp only [Prod.mk.injEq] at heq
        obtain ⟨rfl, rfl, rfl⟩ := heq
        exact inv.rest hstarted (by rw [hphase]; rfl) rfl
      | ok acquired =>
        simp only [Prod.mk.injEq] at heq
        obtain ⟨rfl, rfl, rfl⟩ := heq
        exact inv.fetch hstarted hphase houtcome
    · split at hcancelled
      · simp only [List.mem_singleton, Prod.mk.injEq] at hcancelled
        obtain ⟨rfl, rfl, rfl⟩ := hcancelled
        exact inv.rest hstarted (by rw [hphase]; rfl) rfl
      · simp at hcancelled
  | inspect h => exact inv.inspect hstarted hphase hmem
  | claim h core => exact inv.claim hstarted hphase hmem
  | unpack h core => exact inv.unpack hstarted hphase hmem
  | file core state => exact inv.file hstarted hphase hmem
  | deliver => exact inv.deliver hstarted hphase hmem
  | count =>
    obtain ⟨c, bytes, hcall, hdealing, hstage, hhand⟩ := inv.exists_dealing hphase rfl
    cases hstage with
    | count hcore =>
      simp only [Assembler.next, hphase, List.mem_singleton, Prod.mk.injEq] at hmem
      obtain ⟨rfl, rfl, rfl⟩ := hmem
      refine inv.endWith hcall hdealing hstarted rfl rfl hhand ?_
      rw [Device.gained_of_snapshots]
      · exact .filed hcore
      · rfl
  | failed e =>
    simp only [Assembler.next, hphase, List.mem_singleton, Prod.mk.injEq] at hmem
    obtain ⟨rfl, rfl, rfl⟩ := hmem
    exact inv.rest hstarted (by rw [hphase]; rfl) rfl

end Inv

end Recycling

end Cosim

import Cosim.Device
import Cosim.Proofs.Assembly

/-!
# The two workers of a device

The reader and the assembler of a device, taking steps in any order, together
with the exchange that they feed.

* `Device.Sound` is the invariant that steps of either worker keep, whether or
  not the device is being stopped.
* `Sound.readerNext` and `Sound.assemblerNext` are its step lemmas; the lemmas after
  them say the same of the hardware, the taker, and whoever stops the device.
-/

namespace Cosim

/-- A sequence succeeds when both its parts do. -/
theorem bind_eq_ok {ε α β : Type} {x : Except ε α} {f : α → Except ε β} {b : β}
    (h : x >>= f = .ok b) : ∃ a, x = .ok a ∧ f a = .ok b := by
  cases x with
  | error e => cases h
  | ok a => exact ⟨a, rfl, h⟩

theorem eq_ok_of_toOption {ε α : Type} {x : Except ε α} {a : α} (h : x.toOption = some a) :
    x = .ok a := by
  cases x with
  | error e => cases h
  | ok b => exact congrArg Except.ok (Option.some.inj h)

namespace Device

/-- Nobody has told the workers to stop. -/
def Calm (d : Device) : Prop := Reader.Calm d.signals d.source d.pool

/-- Both workers keep their promises on the way from a stream to the exchange. -/
structure Sound (cores : Nat) (stream pending : List UInt8) (d : Device) (h : Handover) : Prop where
  exchange_eq : h.exchange = d.exchange
  inv : h.Inv cores
  assembled : Assembled cores stream pending d.signals d.Calm d.reader d.source d.assembler d.pool h
  depth_pos : 0 < d.pool.depth
  pool_sealed : d.pool.isSealed = true ↔ d.readerExit ≠ .pending
  reader_over : d.readerExit ≠ .pending → ∃ failure, d.reader.phase = .returned failure
  exchange_sealed : d.exchange.isSealed = true ↔ d.assemblerExit ≠ .pending
  assembler_over : d.assemblerExit ≠ .pending → ∃ failure, d.assembler.phase = .returned failure
  failures : ∀ e ∈ d.failures,
    d.reader.phase = .returned (some e) ∨ d.assembler.phase = .returned (some e)

/-- What the workers leave alone. -/
structure Keeps (d d' : Device) : Prop where
  signals_eq : d'.signals = d.signals
  source_closed_eq : d'.source.isClosed = d.source.isClosed
  tail_eq : d'.source.tail = d.source.tail
  pool_closed_eq : d'.pool.isClosed = d.pool.isClosed
  started_eq : d'.started = d.started

variable {cores : Nat} {stream pending : List UInt8} {d d' : Device} {h : Handover}

theorem Keeps.calm (hk : d.Keeps d') : d'.Calm ↔ d.Calm := by
  constructor
  · rintro ⟨h₁, h₂, h₃, h₄⟩
    exact ⟨hk.signals_eq ▸ h₁, hk.signals_eq ▸ h₂, hk.source_closed_eq ▸ h₃, hk.pool_closed_eq ▸ h₄⟩
  · rintro ⟨h₁, h₂, h₃, h₄⟩
    exact ⟨hk.signals_eq ▸ h₁, hk.signals_eq ▸ h₂, hk.source_closed_eq ▸ h₃, hk.pool_closed_eq ▸ h₄⟩

/-! ## What a step can be -/

theorem mem_readerNext (hmem : d' ∈ d.readerNext) :
    (∃ r s p, (r, s, p) ∈ d.reader.next d.signals d.source d.pool ∧
      d' = { d with reader := r, source := s, pool := p }) ∨
    (∃ failure, d.reader.phase = .returned failure ∧
      (d.readerExit = .pending ∧ d' = { d with pool := d.pool.finish, readerExit := .closing } ∨
        d.readerExit = .closing ∧
          d' = { d with failures := d.failures ++ failure.toList, readerExit := .done })) := by
  unfold readerNext at hmem
  split at hmem
  · rename_i failure hphase
    right
    refine ⟨failure, hphase, ?_⟩
    cases hexit : d.readerExit <;> simp_all
  · left
    simp only [List.mem_map] at hmem
    obtain ⟨⟨r, s, p⟩, hnext, rfl⟩ := hmem
    exact ⟨r, s, p, hnext, rfl⟩

theorem mem_assemblerNext (hmem : d' ∈ d.assemblerNext) :
    (∃ a p x, (a, p, x) ∈ d.assembler.next d.signals d.pool d.exchange ∧
      d' = { d with assembler := a, pool := p, exchange := x }) ∨
    (∃ failure, d.assembler.phase = .returned failure ∧
      ((d.assemblerExit = .pending ∧ d.exchange.isSealed = false) ∧ d' =
          { d with
            exchange := { d.exchange with isSealed := true }, assemblerExit := .closing } ∨
        d.assemblerExit = .closing ∧
          d' = { d with failures := d.failures ++ failure.toList, assemblerExit := .done })) := by
  unfold assemblerNext at hmem
  split at hmem
  · rename_i failure hphase
    right
    refine ⟨failure, hphase, ?_⟩
    split at hmem
    · rename_i hpending
      split at hmem
      · rename_i x hclose
        obtain ⟨hopen, rfl⟩ := Exchange.close_eq_ok.mp hclose
        exact .inl ⟨⟨hpending, hopen⟩, List.mem_singleton.mp hmem⟩
      · cases hmem
    · rename_i hclosing
      exact .inr ⟨hclosing, List.mem_singleton.mp hmem⟩
    · cases hmem
  · left
    simp only [List.mem_map] at hmem
    obtain ⟨⟨a, p, x⟩, hnext, rfl⟩ := hmem
    exact ⟨a, p, x, hnext, rfl⟩

/-! ## Steps of the reader -/

namespace Sound

theorem readerNext (hd : d.Sound cores stream pending h) (hmem : d' ∈ d.readerNext) :
    d'.Sound cores stream pending h ∧ d.Keeps d' := by
  obtain ⟨acquired, filed, hs, ha⟩ := hd.assembled
  rcases mem_readerNext hmem with ⟨r, s, p, hnext, rfl⟩ | ⟨failure, hphase, hexit⟩
  · have hpending : d.readerExit = .pending := by
      by_contra hne
      obtain ⟨failure, hphase⟩ := hd.reader_over hne
      simp [Reader.next, hphase] at hnext
    have hsealed : d.pool.isSealed = false := by
      rw [← Bool.not_eq_true, hd.pool_sealed]
      simp [hpending]
    obtain ⟨hs', hkeeps⟩ := hs.next hsealed hnext
    have hk : d.Keeps { d with reader := r, source := s, pool := p } :=
      ⟨rfl, hkeeps.closed_eq, hkeeps.tail_eq, hkeeps.frame.closed_eq, rfl⟩
    refine ⟨?_, hk⟩
    exact
      { exchange_eq := hd.exchange_eq
        inv := hd.inv
        assembled := ⟨acquired, filed, hs'.imp hk.calm.mp,
          ha.of_pool hkeeps.bytes_eq (hkeeps.frame.sealed_eq ▸ id) id hk.calm.mp⟩
        depth_pos := hkeeps.frame.depth_eq ▸ hd.depth_pos
        pool_sealed := hkeeps.frame.sealed_eq ▸ hd.pool_sealed
        reader_over := fun hne => absurd hpending hne
        exchange_sealed := hd.exchange_sealed
        assembler_over := hd.assembler_over
        failures := fun e he => by
          rcases hd.failures e he with hphase | hphase
          · simp [Reader.next, hphase] at hnext
          · exact .inr hphase }
  · rcases hexit with ⟨hpending, rfl⟩ | ⟨hclosing, rfl⟩
    · have hk : d.Keeps { d with pool := d.pool.finish, readerExit := .closing } :=
        ⟨rfl, rfl, rfl, rfl, rfl⟩
      refine ⟨?_, hk⟩
      exact
        { exchange_eq := hd.exchange_eq
          inv := hd.inv
          assembled := ⟨acquired, filed,
            hs.reflag true d.pool.isClosed d.source.isClosed hk.calm.mp,
            ha.of_pool (fun _ _ => rfl) (fun _ => rfl) id hk.calm.mp⟩
          depth_pos := hd.depth_pos
          pool_sealed := by simp [Pool.finish]
          reader_over := fun _ => ⟨failure, hphase⟩
          exchange_sealed := hd.exchange_sealed
          assembler_over := hd.assembler_over
          failures := hd.failures }
    · refine ⟨?_, ⟨rfl, rfl, rfl, rfl, rfl⟩⟩
      exact
        { hd with
          pool_sealed := by simpa [hclosing] using hd.pool_sealed
          reader_over := fun _ => ⟨failure, hphase⟩
          failures := fun e he => by
            rcases List.mem_append.mp he with hold | hnew
            · exact hd.failures e hold
            · rw [Option.mem_toList] at hnew
              exact .inl (hnew ▸ hphase) }

/-! ## Steps of the assembler -/

theorem assemblerNext (hd : d.Sound cores stream pending h) (hmem : d' ∈ d.assemblerNext) :
    ∃ h', Handover.Reach h h' ∧ h'.taker = h.taker ∧ h'.takes = h.takes ∧
      d'.Sound cores stream pending h' ∧ d.Keeps d' := by
  rcases mem_assemblerNext hmem with ⟨a, p, x, hnext, rfl⟩ | ⟨failure, hphase, hexit⟩
  · have hpending : d.assemblerExit = .pending := by
      by_contra hne
      obtain ⟨failure, hphase⟩ := hd.assembler_over hne
      simp [Assembler.next, hphase] at hnext
    have hopen : h.exchange.isSealed = false := by
      rw [← Bool.not_eq_true, hd.exchange_eq, hd.exchange_sealed]
      simp [hpending]
    rw [← hd.exchange_eq] at hnext
    obtain ⟨h', hreach, rfl, htaker, htakes, ha', hframe, hsame⟩ := hd.assembled.next hd.inv hopen
      (fun hc => ⟨hc.running, hc.cancelled, hc.pool_open⟩)
      (fun hs => hd.reader_over (hd.pool_sealed.mp hs)) hnext
    have hk : d.Keeps { d with assembler := a, pool := p, exchange := h'.exchange } :=
      ⟨rfl, rfl, rfl, hframe.closed_eq, rfl⟩
    obtain ⟨acquired, filed, hs, ha⟩ := ha'
    refine ⟨h', hreach, htaker, htakes, ?_, hk⟩
    exact
      { exchange_eq := rfl
        inv := hd.inv.reach hreach
        assembled := ⟨acquired, filed, hs.imp hk.calm.mp,
          ha.of_pool (fun _ _ => rfl) id id hk.calm.mp⟩
        depth_pos := hframe.depth_eq ▸ hd.depth_pos
        pool_sealed := hframe.sealed_eq ▸ hd.pool_sealed
        reader_over := hd.reader_over
        exchange_sealed := by simp [hpending, hsame, hopen]
        assembler_over := fun hne => absurd hpending hne
        failures := fun e he => by
          rcases hd.failures e he with hphase | hphase
          · exact .inl hphase
          · simp [Assembler.next, hphase] at hnext }
  · rcases hexit with ⟨⟨-, hopen⟩, rfl⟩ | ⟨hclosing, rfl⟩
    · obtain ⟨acquired, filed, hs, ha⟩ := hd.assembled
      rw [← hd.exchange_eq] at hopen
      have hfiller : h.filler = .idle ∨ ∃ t, h.filler = .filling t := by
        rw [ha.filler_eq, hopen]
        cases hcurrent : d.assembler.current <;> simp [Assembler.filler, hcurrent, hphase]
      have hmove := Handover.Move.close hfiller (Exchange.close_eq_ok.mpr ⟨hopen, rfl⟩)
      refine ⟨_, .single hmove, rfl, rfl, ?_, ⟨rfl, rfl, rfl, rfl, rfl⟩⟩
      have hticket : h.filler.ticket = d.assembler.current := by
        rw [ha.filler_eq, Assembler.ticket_filler]
      exact
        { exchange_eq := by simp only [hd.exchange_eq]
          inv := hd.inv.move hmove
          assembled := ⟨acquired, filed, hs,
            ha.of_handover (by simp [Assembler.filler, hticket]) rfl rfl⟩
          depth_pos := hd.depth_pos
          pool_sealed := hd.pool_sealed
          reader_over := hd.reader_over
          exchange_sealed := by simp
          assembler_over := fun _ => ⟨failure, hphase⟩
          failures := hd.failures }
    · refine ⟨h, .refl, rfl, rfl, ?_, ⟨rfl, rfl, rfl, rfl, rfl⟩⟩
      exact
        { hd with
          exchange_sealed := by simpa [hclosing] using hd.exchange_sealed
          assembler_over := fun _ => ⟨failure, hphase⟩
          failures := fun e he => by
            rcases List.mem_append.mp he with hold | hnew
            · exact hd.failures e hold
            · rw [Option.mem_toList] at hnew
              exact .inr (hnew ▸ hphase) }

/-! ## Steps of others -/

/-- What the taker does is not the workers' business. -/
theorem taker (hd : d.Sound cores stream pending h) {h' : Handover} (inv : h'.Inv cores)
    (hsealed : h'.exchange.isSealed = h.exchange.isSealed) (hfiller : h'.filler = h.filler)
    (hputs : h'.puts = h.puts) (hpublished : h'.published = h.published) :
    { d with exchange := h'.exchange }.Sound cores stream pending h' := by
  obtain ⟨acquired, filed, hs, ha⟩ := hd.assembled
  exact
    { hd with
      exchange_eq := rfl
      inv
      assembled := ⟨acquired, filed, hs,
        ha.of_handover (by rw [hfiller, hsealed, ha.filler_eq]) hputs hpublished⟩
      exchange_sealed := by
        rw [← hd.exchange_sealed, ← hd.exchange_eq, ← hsealed] }

/-- A full snapshot is what the taker gets. -/
theorem take_full (hd : d.Sound cores stream pending h) {t : Ticket}
    (hfull : d.exchange.full = some t) :
    d.exchange.take = some (.ok t, { d.exchange with full := none }) := by
  rw [← hd.exchange_eq] at hfull ⊢
  obtain ⟨rfl, -⟩ := hd.inv.owned.of_full hfull
  exact Exchange.take_full hfull (hd.inv.handed (.inl hfull)).2.1

/-- The taker can always give its snapshot back. -/
theorem giveBack_eq (hd : d.Sound cores stream pending h) {t : Ticket}
    (htaker : h.taker = .returning t) :
    d.exchange.giveBack t = .done { d.exchange with empty := some t } := by
  have howned := hd.inv.owned
  rw [htaker, hd.exchange_eq] at howned
  exact howned.giveBack.1

theorem take (hd : d.Sound cores stream pending h) {t : Ticket} {x : Exchange}
    (htaker : h.taker = .idle) (htake : d.exchange.take = some (.ok t, x)) :
    { d with exchange := x }.Sound cores stream pending
      { h with
        exchange := x, taker := .reading t, takes := h.takes ++ [Except.ok (x.snapshot t)] } := by
  rw [← hd.exchange_eq] at htake
  obtain ⟨-, -, hx, -⟩ := hd.inv.owned.take_ok htake
  exact hd.taker (hd.inv.move (.take htaker htake)) (by rw [hx]) rfl rfl rfl

theorem takeFailed (hd : d.Sound cores stream pending h) {e : Error} {x : Exchange}
    (htaker : h.taker = .idle) (htake : d.exchange.take = some (.error e, x)) :
    { d with exchange := x }.Sound cores stream pending
      { h with exchange := x, takes := h.takes ++ [Except.error e] } := by
  rw [← hd.exchange_eq] at htake
  obtain ⟨-, hx, -, -⟩ := hd.inv.take_error htake
  exact hd.taker (hd.inv.move (.takeFailed htaker htake)) (by rw [hx]) rfl rfl rfl

theorem reset (hd : d.Sound cores stream pending h) {t : Ticket} (htaker : h.taker = .reading t) :
    { d with exchange := d.exchange.reset t }.Sound cores stream pending
      { h with exchange := d.exchange.reset t, taker := .returning t } := by
  rw [← hd.exchange_eq]
  exact hd.taker (hd.inv.move (.reset htaker)) rfl rfl rfl rfl

theorem giveBack (hd : d.Sound cores stream pending h) {t : Ticket} {x : Exchange}
    (htaker : h.taker = .returning t) (hback : d.exchange.giveBack t = .done x) :
    { d with exchange := x }.Sound cores stream pending
      { h with exchange := x, taker := .idle } := by
  have hx := hback
  rw [hd.giveBack_eq htaker, Exchange.Delivery.done.injEq] at hx
  rw [← hd.exchange_eq] at hback hx
  exact hd.taker (hd.inv.move (.giveBack htaker hback)) (by rw [← hx]) rfl rfl rfl

/-- The hardware delivers some bytes. -/
theorem feed {piece rest : List UInt8} (hd : d.Sound cores stream (piece ++ rest) h)
    (hpiece : piece ≠ []) :
    { d with source := d.source.feed piece }.Sound cores stream rest h := by
  obtain ⟨acquired, filed, hs, ha⟩ := hd.assembled
  have himp : { d with source := d.source.feed piece }.Calm → d.Calm :=
    fun hc => ⟨hc.running, hc.cancelled, hc.source_open, hc.pool_open⟩
  exact { hd with
    assembled := ⟨acquired, filed, (hs.feed hpiece).imp himp,
      ha.of_pool (fun _ _ => rfl) id id himp⟩ }

/-- The hardware comes to its end. -/
theorem finish (hd : d.Sound cores stream [] h) :
    { d with source := d.source.finish .finished }.Sound cores stream [] h := by
  obtain ⟨acquired, filed, hs, ha⟩ := hd.assembled
  have himp : { d with source := d.source.finish .finished }.Calm → d.Calm :=
    fun hc => ⟨hc.running, hc.cancelled, hc.source_open, hc.pool_open⟩
  exact { hd with
    assembled := ⟨acquired, filed, hs.finish.imp himp, ha.of_pool (fun _ _ => rfl) id id himp⟩ }

/-- Reports that have been taken note of are gone. -/
theorem reported (hd : d.Sound cores stream pending h) {e : Error} {before later : List Error}
    (hfailures : d.failures = before ++ e :: later) :
    { d with failures := before ++ later }.Sound cores stream pending h :=
  { hd with
    failures := fun e' he => by
      refine hd.failures e' ?_
      rw [hfailures]
      rcases List.mem_append.mp he with hmem | hmem <;> simp [hmem] }

/-- Workers whose caller has gone keep their promises, as far as they made any. -/
theorem abandon (hd : d.Sound cores stream pending h) :
    d.abandon.Sound cores stream pending h := by
  obtain ⟨acquired, filed, hs, ha⟩ := hd.assembled
  have himp : d.abandon.Calm → d.Calm := by
    rintro ⟨h₁, h₂, h₃, h₄⟩
    unfold Device.abandon at *
    cases hstarted : d.started <;> simp_all
    exact ⟨h₁, h₂, h₃, h₄⟩
  exact { hd with
    assembled := ⟨acquired, filed, hs.imp himp, ha.of_pool (fun _ _ => rfl) id
      (by unfold Device.abandon; cases d.started <;> simp) himp⟩ }

/-- Workers that are told to stop keep their promises, as far as they made any. -/
theorem halt (hd : d.Sound cores stream pending h) (step : Halt) :
    (d.halt step).Sound cores stream pending h := by
  obtain ⟨acquired, filed, hs, ha⟩ := hd.assembled
  cases step with
  | lower =>
    have himp : { d with signals := { d.signals with running := false } }.Calm → d.Calm :=
      fun hc => absurd hc.running (by simp)
    exact { hd with
      assembled := ⟨acquired, filed, hs.imp himp, ha.of_pool (fun _ _ => rfl) id id himp⟩ }
  | closeSource =>
    have himp : { d with source := d.source.close }.Calm → d.Calm :=
      fun hc => absurd hc.source_open (by simp [Source.close])
    exact { hd with
      assembled := ⟨acquired, filed, hs.reflag d.pool.isSealed d.pool.isClosed true himp,
        ha.of_pool (fun _ _ => rfl) id id himp⟩ }
  | closePool =>
    have himp : { d with pool := d.pool.close }.Calm → d.Calm :=
      fun hc => absurd hc.pool_open (by simp [Pool.close])
    exact { hd with
      assembled := ⟨acquired, filed, hs.reflag d.pool.isSealed true d.source.isClosed himp,
        ha.of_pool (fun _ _ => rfl) id id himp⟩ }
  | cancel =>
    have himp : (d.halt .cancel).Calm → d.Calm := by
      rintro ⟨h₁, h₂, h₃, h₄⟩
      refine ⟨h₁, ?_, h₃, h₄⟩
      simp only [Device.halt, Bool.or_eq_false_iff] at h₂
      exact h₂.1
    exact { hd with
      assembled := ⟨acquired, filed, hs.imp himp,
        ha.of_pool (fun _ _ => rfl) id (by simp +contextual [Device.halt]) himp⟩ }

end Sound

/-! ## What the workers deliver -/

namespace Sound

/-- No more blocks are published than come before the first bad record. -/
theorem published_le (hd : d.Sound cores stream pending h) :
    h.published.length ≤ Stream.firstBad cores (Stream.records stream) / cores := by
  obtain ⟨acquired, filed, -, ha⟩ := hd.assembled
  have hfiled := Stream.le_firstBad ha.good ha.filed_le
  have hlength := ha.published_length
  have hdiv : filed / cores ≤ _ / cores := Nat.div_le_div_right hfiled
  omega

/-- What is published are the blocks of the stream, numbered from one. -/
theorem published (hd : d.Sound cores stream pending h) {k : Nat} {s : Snapshot}
    (hk : h.published[k]? = some s) :
    s.seq = .ofNat (k + 1) ∧ s.Holds cores (Stream.block cores (Stream.records stream) k) ∧
      (Stream.block cores (Stream.records stream) k).length = cores := by
  obtain ⟨acquired, filed, -, ha⟩ := hd.assembled
  refine ⟨hd.inv.numbered k s hk, ha.published_holds k s hk, Stream.length_block ?_⟩
  have hlt := (List.getElem?_eq_some_iff.mp hk).1
  have hle := hd.published_le
  have hdiv : Stream.firstBad cores (Stream.records stream) / cores ≤ _ / cores :=
    Nat.div_le_div_right Stream.firstBad_le
  omega

/-- How the assembler ends, and what it has published by then. -/
theorem assembler_returned (hd : d.Sound cores stream pending h) (hcalm : d.Calm)
    {failure : Option Error} (hphase : d.assembler.phase = .returned failure) :
    failure = Stream.refusal cores (Stream.records stream) ∧
      h.published.length = Stream.firstBad cores (Stream.records stream) / cores ∧
      (failure = none → d.pool.isSealed = true) := by
  obtain ⟨acquired, filed, -, ha⟩ := hd.assembled
  have hlength := ha.published_length
  simp only [hphase, reduceCtorEq, if_false, Nat.add_zero] at hlength
  cases failure with
  | some e =>
    obtain ⟨hbad, hrefusal⟩ := ha.refused e hphase
    exact ⟨hrefusal.symm, by rw [Stream.firstBad_eq ha.good hbad, hlength], by simp⟩
  | none =>
    obtain ⟨hall, hsealed⟩ := ha.finished hphase hcalm
    have hgood := ha.good
    rw [hall] at hgood
    exact ⟨(Stream.refusal_eq_none hgood).symm,
      by rw [Stream.firstBad_eq_length hgood, hlength, hall], fun _ => hsealed⟩

/-- How the reader ends. -/
theorem reader_returned (hd : d.Sound cores stream pending h) (hcalm : d.Calm)
    {failure : Option Error} (hphase : d.reader.phase = .returned failure) :
    failure = if chunkSize ∣ stream.length then none
      else some (.shortRecord (stream.length % chunkSize) chunkSize
        (.ofNat (stream.length / chunkSize))) := by
  obtain ⟨acquired, filed, hs, ha⟩ := hd.assembled
  exact (hs.returned hphase hcalm (by simpa using ha.acquired_le)).2

end Sound

/-! ## The start -/

/-- What a device is made of; no worker has been started. -/
theorem create_parts {source : Source} {cores depth : Int}
    (hcreate : create source cores depth = .ok d) :
    ∃ pool x assembler, Pool.create depth chunkSize = .ok pool ∧ Exchange.create cores = .ok x ∧
      d = { source, pool, exchange := x, assembler } := by
  unfold create at hcreate
  dsimp only at hcreate
  split at hcreate
  · cases hcreate
  · obtain ⟨pool, hpool, hcreate⟩ := bind_eq_ok hcreate
    obtain ⟨x, hexchange, hcreate⟩ := bind_eq_ok hcreate
    obtain ⟨assembler, -, hcreate⟩ := bind_eq_ok hcreate
    cases hcreate
    exact ⟨pool, x, assembler, hpool, hexchange, rfl⟩

/-- A device can be made if its pool and its exchange can. -/
theorem create_eq {source : Source} {cores depth : Int} {pool : Pool} {x : Exchange}
    (hpool : Pool.create depth chunkSize = .ok pool) (hexchange : Exchange.create cores = .ok x) :
    create source cores depth = .ok { source, pool, exchange := x, assembler := { cores } } := by
  obtain ⟨hdepth, -⟩ := Pool.create_eq_ok hpool
  have hsize : pool.size = chunkSize := (Pool.placed_create hpool).2.1
  simp only [create, if_neg (show ¬ depth < 1 by omega), hpool, hexchange, Assembler.create,
    if_pos hsize, bind, Except.bind, pure, Except.pure]

/-- A device that has just been started has its whole stream before it. -/
theorem create_sound (source : Source) (pending : List UInt8) {cores depth : Int} (hlow : 1 ≤ cores)
    (hhigh : cores ≤ maxCores) (hdepth : 1 ≤ depth)
    (hroom : Pool.checkRoom depth chunkSize = .ok ()) (hopen : source.isClosed = false)
    (htail : source.tail = .opened ∨ source.tail = .ended .finished ∧ pending = []) :
    ∃ d, create source cores depth = .ok d ∧ d.source = source ∧ d.start.Calm ∧
      d.start.Sound cores.toNat (source.queue ++ pending) pending { exchange := d.exchange } := by
  obtain ⟨pool, hpool⟩ := Pool.create_ok hdepth (by decide) hroom
  obtain ⟨hplaced, hsize, hpos, hsealed, hclosed, hbusy⟩ := Pool.placed_create hpool
  have hchunk : pool.size = chunkSize := hsize
  obtain ⟨s, -, hexchange⟩ := Exchange.create_ok hlow hhigh
  obtain ⟨h, hstart, inv⟩ := Handover.start_inv hlow hhigh
  simp only [Handover.start, hexchange, bind, Except.bind, pure, Except.pure, Except.ok.injEq]
    at hstart
  subst hstart
  refine ⟨_, create_eq hpool hexchange, rfl, ⟨rfl, rfl, hopen, hclosed⟩, ?_⟩
  have hsupply : Supply chunkSize (source.queue ++ pending) pending True { phase := .start } source
      pool 0 [] [] :=
    { started := by simp
      tail_eq := htail
      stream_eq := by simp [Pool.waiting, hbusy, Reader.ahead]
      active := fun _ => ⟨rfl, rfl⟩
      ended := by simp [Reader.Phase.isOver]
      got_le := by simp
      records_eq := by simp [hbusy]
      stopped := by simp
      returned := by simp }
  have hsupplied : Supplied chunkSize (source.queue ++ pending) pending True [] 0
      { phase := .start } source pool :=
    ⟨[], [], hsupply, hplaced, hchunk⟩
  refine
    { exchange_eq := rfl
      inv
      assembled := ⟨0, 0, hsupplied.imp fun _ => trivial, ?_⟩
      depth_pos := hpos
      pool_sealed := by simp [start, hsealed]
      reader_over := by simp [start]
      exchange_sealed := by simp [start]
      assembler_over := by simp [start]
      failures := by simp [start] }
  exact
    { started := by simp [start]
      cores_eq := by
        simp only [start, Bool.false_eq_true, if_false]
        omega
      filler_eq := rfl
      filed_le := Nat.zero_le _
      good := by simp
      acquired_le := Nat.zero_le _
      in_hand := by simp [start, Assembler.inHand]
      hand_empty := fun _ _ => rfl
      core_eq := by simp [start, Assembler.Phase.core]
      holding := by simp [start, Assembler.Phase.files]
      claiming := by simp [start]
      between := by simp
      filling := by simp [start]
      delivering := by simp [start]
      published_length := by simp [start]
      published_holds := by simp
      failed := by simp [start]
      refused := by simp [start]
      finished := by simp [start] }

end Device

end Cosim

import Cosim.Proofs.Workers

/-!
# What the steps of the workers leave alone

The two workers of a device share the pool and nothing else: the source is the reader's, and the
exchange has the assembler on one side only.

* `Reader.next_frame` says what a step of the reader does to source and pool.
* `Exchange.Fed` says how an exchange may change under the assembler, and `Assembler.next_frame`
  that every step of the assembler keeps to it.
* `Device.Sound.readerNext_source` and `Device.assemblerNext_fed` say the same of a device.
-/

namespace Cosim

/-! ## The reader -/

/-- A step of the reader keeps the number of chunks, and takes bytes off its source or leaves it
alone. -/
theorem Reader.next_frame {signals : Signals} {r r' : Reader} {source source' : Source}
    {pool pool' : Pool} (hmem : (r', source', pool') ∈ r.next signals source pool) :
    pool'.depth = pool.depth ∧ (source' = source ∨
      ∃ want data, 0 < want ∧ source.read want = some (.bytes data source')) := by
  unfold Reader.next at hmem
  cases hphase : r.phase with
  | idle | returned => simp [hphase] at hmem
  | start | enter | stopped | count =>
    simp only [hphase, List.mem_singleton, Prod.mk.injEq] at hmem
    obtain ⟨-, rfl, rfl⟩ := hmem
    exact ⟨rfl, .inl rfl⟩
  | acquire =>
    simp only [hphase, List.mem_append, List.mem_map] at hmem
    rcases hmem with ⟨o, ho, heq⟩ | hcancelled
    · rcases Pool.mem_freeOutcomes.mp ho with ⟨-, rfl⟩ | ⟨h, rest, -, rfl⟩
      · cases heq
        exact ⟨rfl, .inl rfl⟩
      · cases heq
        exact ⟨Pool.depth_updateSlot _ _ _, .inl rfl⟩
    · split at hcancelled <;> simp_all
  | fill h got =>
    simp only [hphase] at hmem
    split at hmem
    · simp only [List.mem_singleton, Prod.mk.injEq] at hmem
      obtain ⟨-, rfl, rfl⟩ := hmem
      exact ⟨rfl, .inl rfl⟩
    · rename_i hmore
      split at hmem
      · simp at hmem
      · rename_i data source₁ hread
        simp only [List.mem_singleton, Prod.mk.injEq] at hmem
        obtain ⟨-, rfl, rfl⟩ := hmem
        exact ⟨Pool.depth_updateSlot _ _ _, .inr ⟨_, data, by omega, hread⟩⟩
      · simp only [List.mem_singleton, Prod.mk.injEq] at hmem
        obtain ⟨-, rfl, rfl⟩ := hmem
        exact ⟨rfl, .inl rfl⟩
  | publish h =>
    simp only [hphase] at hmem
    split at hmem
    · rename_i pool₁ hok
      simp only [List.mem_singleton, Prod.mk.injEq] at hmem
      obtain ⟨-, rfl, rfl⟩ := hmem
      obtain ⟨g, -, -, -, -, -, rfl⟩ := Pool.publish_eq_ok hok
      exact ⟨Pool.depth_updateSlot _ _ _, .inl rfl⟩
    · simp only [List.mem_singleton, Prod.mk.injEq] at hmem
      obtain ⟨-, rfl, rfl⟩ := hmem
      exact ⟨rfl, .inl rfl⟩
    · simp only [List.mem_singleton, Prod.mk.injEq] at hmem
      obtain ⟨-, rfl, rfl⟩ := hmem
      exact ⟨rfl, .inl rfl⟩

/-! ## The assembler -/

/-- The assembler puts nothing into the empty place of the exchange and takes nothing out of the
full one. -/
structure Exchange.Fed (x x' : Exchange) : Prop where
  empty : x'.empty = x.empty ∨ x'.empty = none
  full : x'.full = x.full ∨ x.full = none

namespace Exchange.Fed

variable {x x' x'' : Exchange} {t : Ticket}

theorem refl (x : Exchange) : x.Fed x := ⟨.inl rfl, .inl rfl⟩

theorem trans (hfirst : x.Fed x') (hsecond : x'.Fed x'') : x.Fed x'' := by
  constructor
  · rcases hsecond.empty with hsame | hnone
    · rw [hsame]
      exact hfirst.empty
    · exact .inr hnone
  · rcases hfirst.full with hsame | hnone
    · rw [← hsame]
      exact hsecond.full
    · exact .inr hnone

theorem claim (hclaim : x.claim = some (t, x')) : x.Fed x' := by
  obtain ⟨u, -, heq⟩ := Option.map_eq_some_iff.mp hclaim
  cases heq
  exact ⟨.inr rfl, .inl rfl⟩

theorem put {core : Int} {state : CoreState} (hput : x.put t core state = .ok x') : x.Fed x' := by
  obtain ⟨s, -, heq⟩ := bind_eq_ok hput
  cases heq
  exact ⟨.inl rfl, .inl rfl⟩

theorem stamp (hstamp : x.stamp t = .ok x') : x.Fed x' := by
  unfold Exchange.stamp at hstamp
  dsimp only at hstamp
  split at hstamp
  · cases hstamp
    exact ⟨.inl rfl, .inl rfl⟩
  · cases hstamp

theorem offer (hoffer : x.offer t = .done x') : x.Fed x' := by
  unfold Exchange.offer at hoffer
  split at hoffer
  · cases hoffer
  · split at hoffer
    · cases hoffer
    · rename_i hfull
      cases hoffer
      exact ⟨.inl rfl, .inr (by simpa using hfull)⟩

end Exchange.Fed

theorem Assembler.releasing_frame {a a' : Assembler} {pool pool' : Pool} {x x' : Exchange} {h : Nat}
    {phase : Phase} {failure : Error → Error}
    (heq : (a', pool', x') = a.releasing pool x h phase failure) :
    pool'.depth = pool.depth ∧ x.Fed x' := by
  unfold Assembler.releasing at heq
  cases hok : pool.release h with
  | ok pool₁ =>
    simp only [hok, Prod.mk.injEq] at heq
    obtain ⟨-, rfl, rfl⟩ := heq
    obtain ⟨g, -, -, -, rfl⟩ := Pool.release_eq_ok hok
    exact ⟨Pool.depth_updateSlot _ _ _, .refl _⟩
  | error e =>
    simp only [hok, Prod.mk.injEq] at heq
    obtain ⟨-, rfl, rfl⟩ := heq
    exact ⟨rfl, .refl _⟩

theorem Assembler.next_frame {signals : Signals} {a a' : Assembler} {pool pool' : Pool}
    {x x' : Exchange} (hmem : (a', pool', x') ∈ a.next signals pool x) :
    pool'.depth = pool.depth ∧ x.Fed x' := by
  unfold Assembler.next at hmem
  cases hphase : a.phase with
  | idle | returned => simp [hphase] at hmem
  | start | count | failed =>
    simp only [hphase, List.mem_singleton, Prod.mk.injEq] at hmem
    obtain ⟨-, rfl, rfl⟩ := hmem
    exact ⟨rfl, .refl _⟩
  | acquire =>
    simp only [hphase, List.mem_append, List.mem_map] at hmem
    rcases hmem with ⟨o, ho, heq⟩ | hcancelled
    · rcases Pool.mem_busyOutcomes.mp ho with ⟨-, rfl⟩ | ⟨h, rest, -, rfl⟩ | ⟨-, -, rfl⟩
      · cases heq
        exact ⟨rfl, .refl _⟩
      · cases heq
        exact ⟨Pool.depth_updateSlot _ _ _, .refl _⟩
      · cases heq
        exact ⟨rfl, .refl _⟩
    · split at hcancelled <;> simp_all [Exchange.Fed.refl]
  | inspect h =>
    simp only [hphase] at hmem
    split at hmem
    · exact releasing_frame (List.mem_singleton.mp hmem)
    · simp only [List.mem_singleton, Prod.mk.injEq] at hmem
      obtain ⟨-, rfl, rfl⟩ := hmem
      exact ⟨rfl, .refl _⟩
  | claim h core =>
    simp only [hphase, List.mem_append] at hmem
    rcases hmem with hclaim | hcancelled
    · split at hclaim
      · rename_i t x₁ hclaimed
        simp only [List.mem_singleton, Prod.mk.injEq] at hclaim
        obtain ⟨-, rfl, rfl⟩ := hclaim
        exact ⟨rfl, .claim hclaimed⟩
      · simp at hclaim
    · split at hcancelled
      · exact releasing_frame (List.mem_singleton.mp hcancelled)
      · simp at hcancelled
  | unpack h core =>
    simp only [hphase, List.mem_singleton] at hmem
    exact releasing_frame hmem
  | file core state =>
    simp only [hphase] at hmem
    split at hmem
    · simp at hmem
    · split at hmem
      · simp only [List.mem_singleton, Prod.mk.injEq] at hmem
        obtain ⟨-, rfl, rfl⟩ := hmem
        exact ⟨rfl, .refl _⟩
      · rename_i x₁ hput
        split at hmem
        · rename_i x₂ hstamp
          simp only [List.mem_singleton, Prod.mk.injEq] at hmem
          obtain ⟨-, rfl, rfl⟩ := hmem
          exact ⟨rfl, .trans (.put hput) (.stamp hstamp)⟩
        · simp only [List.mem_singleton, Prod.mk.injEq] at hmem
          obtain ⟨-, rfl, rfl⟩ := hmem
          exact ⟨rfl, .put hput⟩
  | deliver =>
    simp only [hphase] at hmem
    split at hmem
    · simp at hmem
    · split at hmem
      · rename_i x₁ hoffer
        simp only [List.mem_singleton, Prod.mk.injEq] at hmem
        obtain ⟨-, rfl, rfl⟩ := hmem
        exact ⟨rfl, .offer hoffer⟩
      · simp at hmem
      · simp at hmem

/-! ## The device -/

namespace Device

variable {cores : Nat} {stream pending : List UInt8} {d d' : Device} {h : Handover}

theorem Sound.readerNext_source (hd : d.Sound cores stream pending h) (hmem : d' ∈ d.readerNext) :
    d'.pool.depth = d.pool.depth ∧ d'.source.queue.length ≤ d.source.queue.length := by
  obtain ⟨acquired, filed, ⟨leaked, lost, hs, -⟩, -⟩ := hd.assembled
  rcases mem_readerNext hmem with ⟨r, s, p, hnext, rfl⟩ | ⟨failure, -, ⟨-, rfl⟩ | ⟨-, rfl⟩⟩
  · obtain ⟨hdepth, rfl | ⟨want, data, hwant, hread⟩⟩ := Reader.next_frame hnext
    · exact ⟨hdepth, Nat.le_refl _⟩
    · have htail : d.source.tail ≠ .zeros := by
        rcases hs.tail_eq with ht | ⟨ht, -⟩ <;> simp [ht]
      obtain ⟨hqueue, -⟩ := Source.read_bytes hread htail hwant
      refine ⟨hdepth, ?_⟩
      show s.queue.length ≤ d.source.queue.length
      rw [hqueue, List.length_append]
      omega
  · exact ⟨rfl, Nat.le_refl _⟩
  · exact ⟨rfl, Nat.le_refl _⟩

theorem assemblerNext_fed (hmem : d' ∈ d.assemblerNext) :
    d'.pool.depth = d.pool.depth ∧ d'.source = d.source ∧ d.exchange.Fed d'.exchange := by
  rcases mem_assemblerNext hmem with ⟨a, p, x, hnext, rfl⟩ | ⟨failure, -, ⟨-, rfl⟩ | ⟨-, rfl⟩⟩
  · obtain ⟨hdepth, hfed⟩ := Assembler.next_frame hnext
    exact ⟨hdepth, rfl, hfed⟩
  · exact ⟨rfl, rfl, .inl rfl, .inl rfl⟩
  · exact ⟨rfl, rfl, .refl _⟩

end Device

end Cosim

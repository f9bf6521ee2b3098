import Cosim.Proofs.Workers

/-!
# What the workers do to the pool

The pool is all that the reader and the assembler of a device share.  What a step does
to it is an act: `Reader.Act` and `Assembler.Act` list them, with what has to hold
before (`Ready`) and what becomes of the pool (`apply`).

* `Reader.exists_act` and `Assembler.exists_act` say that every step is an act, and that
  the same step is open to the worker in every other pool that is ready for the act.
* `Reader.Act.comm` says that an act of the reader and an act of the assembler can be
  done in either order, to the same effect: they are about different chunks, and each
  queue has one of them at either end.
-/

namespace Cosim

namespace Pool

variable {p : Pool} {writing reading : List Nat} {h k : Nat} {tag : Tag}

/-- The pool has this handle, and the slot has this tag. -/
def Tagged (p : Pool) (h : Nat) (tag : Tag) : Prop := h < p.depth ∧ (p.slot h).tag = tag

theorem Placed.tagged (hp : p.Placed writing reading) (hmem : h ∈ p.place writing reading tag) :
    p.Tagged h tag :=
  ⟨hp.lt_depth hmem, hp.tag_eq hmem⟩

theorem Tagged.ne {a b : Tag} (hh : p.Tagged h a) (hk : p.Tagged k b) (hab : a ≠ b) : h ≠ k := by
  rintro rfl
  exact hab (hh.2.symm.trans hk.2)

/-- A chunk that is acquired is checked out. -/
theorem Tagged.held {q : Pool} {state : ChunkState} (hh : p.Tagged h (state, false))
    (hslots : q.slots = p.slots) :
    (q.updateSlot h fun s => { s with held := true }).Tagged h (state, true) := by
  have hlt : h < q.depth := by
    rw [depth, hslots]
    exact hh.1
  have hslot : q.slot h = p.slot h := by simp only [slot, hslots]
  have hstate : (p.slot h).state = state := congrArg Prod.fst hh.2
  refine ⟨by simpa using hlt, ?_⟩
  rw [slot_updateSlot _ hlt, hslot, ← hstate]
  rfl

/-- Writing to a chunk leaves it with whom it is. -/
theorem Tagged.write (hh : p.Tagged h tag) (offset : Nat) (data : List UInt8) :
    (p.write h offset data).Tagged h tag := by
  refine ⟨by simpa [Pool.write] using hh.1, ?_⟩
  rw [Pool.write, slot_updateSlot _ hh.1]
  exact hh.2

/-- A chunk that one fills can be published until the pool ends. -/
theorem Tagged.publish (hh : p.Tagged h (.free, true)) (hclosed : p.isClosed = false) :
    p.publish h =
      if p.isSealed then .error .poolClosed
      else .ok ({ p with busy := p.busy ++ [h], busyCount := p.busyCount + 1 }.updateSlot h
        fun s => { s with state := .busy, held := false }) := by
  have hheld : p.checkHeld .publish h .free = .ok h := checkHeld_eq_ok.mpr ⟨rfl, hh⟩
  cases hsealed : p.isSealed <;> simp [Pool.publish, hheld, hsealed, hclosed, bind, Except.bind,
    throw, throwThe, MonadExceptOf.throw, pure, Except.pure]

/-- A chunk that one reads can be given back. -/
theorem Tagged.release (hh : p.Tagged h (.busy, true)) :
    p.release h =
      .ok ({ p with free := p.free ++ [h], busyCount := p.busyCount - 1 }.updateSlot h
        fun s => { s with state := .free, held := false }) := by
  have hheld : p.checkHeld .release h .busy = .ok h := checkHeld_eq_ok.mpr ⟨rfl, hh⟩
  simp [Pool.release, hheld, bind, Except.bind, pure, Except.pure]

/-- Changes to different slots come to the same in either order. -/
theorem modify_comm (slots : Array Slot) (hne : h ≠ k) (f g : Slot → Slot) :
    (slots.modify h f).modify k g = (slots.modify k g).modify h f := by
  refine Array.ext (by simp) fun i _ _ => ?_
  simp only [Array.getElem_modify]
  by_cases hik : k = i
  · have hih : h ≠ i := fun hih => hne (hih.trans hik.symm)
    simp [hih, hik]
  · simp [hik]

end Pool

/-! ## Acts of the reader -/

namespace Reader

/-- What a step of the reader does to the pool. -/
inductive Act where
  /-- Nothing. -/
  | rest
  /-- A chunk is acquired to be filled. -/
  | lend (h : Nat)
  /-- Bytes are written to the chunk. -/
  | write (h offset : Nat) (data : List UInt8)
  /-- The chunk is published. -/
  | publish (h : Nat)
  /-- The chunk cannot be published any more. -/
  | refuse (h : Nat)
  /-- The pool is sealed. -/
  | finish

namespace Act

/-- What has to hold of the pool before the act. -/
def Ready (p : Pool) : Act → Prop
  | .rest | .finish => True
  | .lend h => p.free.head? = some h ∧ p.Tagged h (.free, false)
  | .write h offset data => p.Tagged h (.free, true) ∧ offset + data.length ≤ p.size
  | .publish h => p.Tagged h (.free, true) ∧ p.isSealed = false
  | .refuse h => p.Tagged h (.free, true) ∧ p.isSealed = true

/-- The pool after the act. -/
def apply (p : Pool) : Act → Pool
  | .rest | .refuse _ => p
  | .lend h => { p with free := p.free.tail }.updateSlot h fun s => { s with held := true }
  | .write h offset data => p.write h offset data
  | .publish h =>
      { p with busy := p.busy ++ [h], busyCount := p.busyCount + 1 }.updateSlot h
        fun s => { s with state := .busy, held := false }
  | .finish => p.finish

variable {act : Act} {p : Pool} {h : Nat} {held : Bool}

@[simp] theorem size_apply (act : Act) (p : Pool) : (act.apply p).size = p.size := by
  cases act <;> rfl

@[simp] theorem depth_apply (act : Act) (p : Pool) : (act.apply p).depth = p.depth := by
  cases act <;> simp [apply, Pool.write, Pool.finish, Pool.depth, Pool.updateSlot]

@[simp] theorem isClosed_apply (act : Act) (p : Pool) : (act.apply p).isClosed = p.isClosed := by
  cases act <;> rfl

/-- The reader puts chunks at the end of the busy queue only. -/
theorem busy_apply (act : Act) (p : Pool) : p.busy <+: (act.apply p).busy := by
  cases act with
  | publish h => exact List.prefix_append _ _
  | _ => exact List.prefix_refl _

/-- The reader leaves the chunks alone that wait to be read or are being read. -/
theorem slot_apply (hready : act.Ready p) (hh : p.Tagged h (.busy, held)) :
    (act.apply p).slot h = p.slot h := by
  cases act with
  | rest | refuse | finish => rfl
  | lend k => exact Pool.slot_updateSlot_ne _ _ (hh.ne hready.2 (by simp))
  | write k => exact Pool.slot_updateSlot_ne _ _ (hh.ne hready.1 (by simp))
  | publish k => exact Pool.slot_updateSlot_ne _ _ (hh.ne hready.1 (by simp))

theorem tagged_apply (hready : act.Ready p) (hh : p.Tagged h (.busy, held)) :
    (act.apply p).Tagged h (.busy, held) :=
  ⟨by simpa using hh.1, by rw [slot_apply hready hh]; exact hh.2⟩

/-- Whatever the reader does, every chunk stays in one place. -/
theorem placed {writing reading : List Nat} (hp : p.Placed writing reading)
    (hclosed : p.isClosed = false) (hready : act.Ready p) :
    ∃ writing', (act.apply p).Placed writing' reading := by
  cases act with
  | rest | refuse => exact ⟨writing, hp⟩
  | finish => exact ⟨writing, hp.nodup, hp.mem_iff, hp.count_eq, hp.length_eq⟩
  | lend h =>
    obtain ⟨rest, hfree⟩ : ∃ rest, p.free = h :: rest := List.head?_eq_some_iff.mp hready.1
    exact ⟨_, (hp.acquireFree hfree (by simp [apply, hfree])).1⟩
  | write h offset data =>
    exact ⟨writing, (hp.write ((hp.mem_iff (.free, true) h).mpr hready.1) hready.2).1⟩
  | publish h =>
    obtain ⟨p', hok, hplaced, -⟩ := hp.publish ((hp.mem_iff (.free, true) h).mpr hready.1)
      ⟨hready.2, hclosed⟩
    obtain ⟨h', hh, -, -, -, -, rfl⟩ := Pool.publish_eq_ok hok
    obtain rfl := Int.ofNat.inj hh
    exact ⟨_, hplaced⟩

end Act

end Reader

/-! ## Acts of the assembler -/

namespace Assembler

/-- What a step of the assembler does to the pool. -/
inductive Act where
  /-- Nothing. -/
  | rest
  /-- The bytes of the chunk are looked at. -/
  | look (h : Nat) (bytes : List UInt8)
  /-- A chunk is acquired to be read. -/
  | fetch (h : Nat)
  /-- Nothing is left to be read. -/
  | drained
  /-- The bytes of the chunk are looked at, and it is given back. -/
  | release (h : Nat) (bytes : List UInt8)

namespace Act

/-- What has to hold of the pool before the act. -/
def Ready (p : Pool) : Act → Prop
  | .rest => True
  | .look h bytes | .release h bytes => p.Tagged h (.busy, true) ∧ (p.slot h).bytes = bytes
  | .fetch h => p.busy.head? = some h ∧ p.Tagged h (.busy, false)
  | .drained => p.busy = [] ∧ p.isSealed = true

/-- The pool after the act. -/
def apply (p : Pool) : Act → Pool
  | .rest | .look _ _ | .drained => p
  | .fetch h => { p with busy := p.busy.tail }.updateSlot h fun s => { s with held := true }
  | .release h _ =>
      { p with free := p.free ++ [h], busyCount := p.busyCount - 1 }.updateSlot h
        fun s => { s with state := .free, held := false }

variable {act : Act} {p : Pool} {h : Nat} {held : Bool}

@[simp] theorem size_apply (act : Act) (p : Pool) : (act.apply p).size = p.size := by
  cases act <;> rfl

@[simp] theorem depth_apply (act : Act) (p : Pool) : (act.apply p).depth = p.depth := by
  cases act <;> simp [apply, Pool.depth, Pool.updateSlot]

@[simp] theorem isClosed_apply (act : Act) (p : Pool) : (act.apply p).isClosed = p.isClosed := by
  cases act <;> rfl

@[simp] theorem isSealed_apply (act : Act) (p : Pool) : (act.apply p).isSealed = p.isSealed := by
  cases act <;> rfl

/-- The assembler puts chunks at the end of the free queue only. -/
theorem free_apply (act : Act) (p : Pool) : p.free <+: (act.apply p).free := by
  cases act with
  | release h => exact List.prefix_append _ _
  | _ => exact List.prefix_refl _

/-- The assembler leaves the chunks alone that are free or are being filled. -/
theorem slot_apply (hready : act.Ready p) (hh : p.Tagged h (.free, held)) :
    (act.apply p).slot h = p.slot h := by
  cases act with
  | rest | look | drained => rfl
  | fetch k => exact Pool.slot_updateSlot_ne _ _ (hh.ne hready.2 (by simp))
  | release k => exact Pool.slot_updateSlot_ne _ _ (hh.ne hready.1 (by simp))

theorem tagged_apply (hready : act.Ready p) (hh : p.Tagged h (.free, held)) :
    (act.apply p).Tagged h (.free, held) :=
  ⟨by simpa using hh.1, by rw [slot_apply hready hh]; exact hh.2⟩

/-- Whatever the assembler does, every chunk stays in one place. -/
theorem placed {writing reading : List Nat} (hp : p.Placed writing reading)
    (hready : act.Ready p) : ∃ reading', (act.apply p).Placed writing reading' := by
  cases act with
  | rest | look | drained => exact ⟨reading, hp⟩
  | fetch h =>
    obtain ⟨rest, hbusy⟩ : ∃ rest, p.busy = h :: rest := List.head?_eq_some_iff.mp hready.1
    exact ⟨_, (hp.acquireBusy hbusy (by simp [apply, hbusy])).1⟩
  | release h =>
    obtain ⟨p', hok, hplaced, -⟩ := hp.release ((hp.mem_iff (.busy, true) h).mpr hready.1)
    obtain ⟨h', hh, -, -, rfl⟩ := Pool.release_eq_ok hok
    obtain rfl := Int.ofNat.inj hh
    exact ⟨_, hplaced⟩

end Act

end Assembler

/-! ## Acts in either order -/

section Comm

variable {a : Reader.Act} {b : Assembler.Act} {p : Pool}

/-- The assembler does not get in the way of the reader. -/
theorem Reader.Act.ready_apply (ha : a.Ready p) (hb : b.Ready p) : a.Ready (b.apply p) := by
  cases a with
  | rest | finish => trivial
  | lend h =>
    refine ⟨?_, b.tagged_apply hb ha.2⟩
    obtain ⟨extra, hfree⟩ := b.free_apply p
    rw [← hfree, List.head?_append, ha.1]
    rfl
  | write h offset data => exact ⟨b.tagged_apply hb ha.1, by simpa using ha.2⟩
  | publish h => exact ⟨b.tagged_apply hb ha.1, by simpa using ha.2⟩
  | refuse h => exact ⟨b.tagged_apply hb ha.1, by simpa using ha.2⟩

/-- The reader does not get in the way of the assembler. -/
theorem Assembler.Act.ready_apply (ha : a.Ready p) (hb : b.Ready p) : b.Ready (a.apply p) := by
  cases b with
  | rest => trivial
  | look h bytes | release h bytes =>
    exact ⟨a.tagged_apply ha hb.1, by rw [a.slot_apply ha hb.1]; exact hb.2⟩
  | fetch h =>
    refine ⟨?_, a.tagged_apply ha hb.2⟩
    obtain ⟨extra, hbusy⟩ := a.busy_apply p
    rw [← hbusy, List.head?_append, hb.1]
    rfl
  | drained =>
    -- Nothing is published to a pool that is sealed.
    cases a with
    | publish h => exact absurd (hb.2.symm.trans ha.2) (by decide)
    | finish => exact ⟨hb.1, rfl⟩
    | _ => exact hb

/-- An act of the reader and one of the assembler come to the same in either order. -/
theorem Reader.Act.comm (ha : a.Ready p) (hb : b.Ready p) :
    a.apply (b.apply p) = b.apply (a.apply p) := by
  cases b with
  | rest | look | drained => rfl
  | fetch k =>
    obtain ⟨rest, hbusy⟩ := List.head?_eq_some_iff.mp hb.1
    cases a with
    | rest | refuse | finish => rfl
    | lend h =>
      simp [apply, Assembler.Act.apply, Pool.updateSlot,
        Pool.modify_comm p.slots (hb.2.ne ha.2 (by simp))]
    | write h =>
      simp [apply, Assembler.Act.apply, Pool.write, Pool.updateSlot,
        Pool.modify_comm p.slots (hb.2.ne ha.1 (by simp))]
    | publish h =>
      simp [apply, Assembler.Act.apply, Pool.updateSlot, hbusy,
        Pool.modify_comm p.slots (hb.2.ne ha.1 (by simp))]
  | release k =>
    cases a with
    | rest | refuse | finish => rfl
    | lend h =>
      obtain ⟨rest, hfree⟩ := List.head?_eq_some_iff.mp ha.1
      simp [apply, Assembler.Act.apply, Pool.updateSlot, hfree,
        Pool.modify_comm p.slots (hb.1.ne ha.2 (by simp))]
    | write h =>
      simp [apply, Assembler.Act.apply, Pool.write, Pool.updateSlot,
        Pool.modify_comm p.slots (hb.1.ne ha.1 (by simp))]
    | publish h =>
      simp [apply, Assembler.Act.apply, Pool.updateSlot,
        Pool.modify_comm p.slots (hb.1.ne ha.1 (by simp))]

end Comm

/-! ## Every step is an act -/

/-- A read gives no more bytes than were asked for, and at least one. -/
theorem Source.length_read {source source' : Source} {want : Nat} {data : List UInt8}
    (hread : source.read want = some (.bytes data source')) (hwant : 0 < want) :
    data.length ≤ want ∧ 0 < data.length := by
  unfold read at hread
  split at hread
  · simp at hread
  dsimp only at hread
  split at hread
  · split at hread
    · simp at hread
    · simp only [Option.some.injEq, Chunk.bytes.injEq] at hread
      rw [← hread.1, List.length_replicate]
      split <;> omega
    · simp at hread
  · rename_i hqueue
    simp only [Option.some.injEq, Chunk.bytes.injEq] at hread
    rw [← hread.1, hqueue, List.length_take, List.length_cons]
    split <;> omega

/-- What a step of the reader does to the pool is an act, after which the reader holds
the chunk it fills; and the step is the same in every pool that is ready for the act. -/
theorem Reader.exists_act {signals : Signals} {r r' : Reader} {source source' : Source}
    {pool pool' : Pool} {writing reading : List Nat} (hcancelled : signals.cancelled = false)
    (hclosed : pool.isClosed = false) (hp : pool.Placed writing reading)
    (hhand : ∀ h ∈ r.phase.hand, pool.Tagged h (.free, true))
    (hmem : (r', source', pool') ∈ r.next signals source pool) :
    ∃ act : Act, act.Ready pool ∧ pool' = act.apply pool ∧
      (∀ h ∈ r'.phase.hand, pool'.Tagged h (.free, true)) ∧
      ∀ q : Pool, q.size = pool.size → q.isClosed = false → act.Ready q →
        (r', source', act.apply q) ∈ r.next signals source q := by
  cases hphase : r.phase with
  | idle | returned => simp [next, hphase] at hmem
  | start =>
    simp only [next, hphase, List.mem_singleton, Prod.mk.injEq] at hmem
    obtain ⟨rfl, rfl, rfl⟩ := hmem
    refine ⟨.rest, trivial, rfl, ?_, fun q _ _ _ => ?_⟩
    · cases signals.running <;> simp [goto, Phase.hand]
    · simp [next, hphase, Act.apply]
  | enter =>
    simp only [next, hphase, hclosed, List.mem_singleton, Prod.mk.injEq] at hmem
    obtain ⟨rfl, rfl, rfl⟩ := hmem
    refine ⟨.rest, trivial, rfl, by simp [goto, Phase.hand], fun q _ hq _ => ?_⟩
    simp [next, hphase, Act.apply, hq]
  | acquire =>
    simp only [next, hphase, hcancelled, List.mem_append, List.mem_map] at hmem
    rcases hmem with ⟨o, ho, heq⟩ | hnot
    · rcases Pool.mem_freeOutcomes.mp ho with ⟨hnot, -⟩ | ⟨h, rest, hfree, rfl⟩
      · simp [hclosed] at hnot
      · cases heq
        have hplace : h ∈ pool.place writing reading (.free, false) := by simp [Pool.place, hfree]
        have htagged := hp.tagged hplace
        refine ⟨.lend h, ⟨by simp [hfree], htagged⟩, by simp [Act.apply, hfree], ?_,
          fun q _ _ hq => ?_⟩
        · intro k hk
          obtain rfl : k = h := by simpa [goto, Phase.hand] using hk
          exact htagged.held rfl
        · obtain ⟨rest', hfree'⟩ := List.head?_eq_some_iff.mp hq.1
          rw [next, hphase]
          refine List.mem_append_left _ (List.mem_map.mpr
            ⟨_, Pool.mem_freeOutcomes.mpr (.inr ⟨h, rest', hfree', rfl⟩), ?_⟩)
          simp [Act.apply, hfree']
    · simp at hnot
  | fill h got =>
    have hheld : pool.Tagged h (.free, true) := hhand h (by simp [hphase, Phase.hand])
    simp only [next, hphase] at hmem
    split at hmem
    · rename_i hfull
      simp only [List.mem_singleton, Prod.mk.injEq] at hmem
      obtain ⟨rfl, rfl, rfl⟩ := hmem
      refine ⟨.rest, trivial, rfl, by simpa [goto, Phase.hand] using hheld, fun q hsize _ _ => ?_⟩
      simp [next, hphase, Act.apply, hsize, hfull]
    · rename_i hmore
      split at hmem
      · simp at hmem
      · rename_i data source₁ hread
        simp only [List.mem_singleton, Prod.mk.injEq] at hmem
        obtain ⟨rfl, rfl, rfl⟩ := hmem
        have hlength := Source.length_read hread (by omega)
        refine ⟨.write h got data, ⟨hheld, by omega⟩, rfl, ?_, fun q hsize _ _ => ?_⟩
        · simpa [goto, Phase.hand] using hheld.write got data
        · simp [next, hphase, Act.apply, hsize, hmore, hread]
      · rename_i how hread
        simp only [List.mem_singleton, Prod.mk.injEq] at hmem
        obtain ⟨rfl, rfl, rfl⟩ := hmem
        refine ⟨.rest, trivial, rfl, by simp [goto, Phase.hand], fun q hsize _ _ => ?_⟩
        simp [next, hphase, Act.apply, hsize, hmore, hread]
  | stopped got how =>
    simp only [next, hphase, List.mem_singleton, Prod.mk.injEq] at hmem
    obtain ⟨rfl, rfl, rfl⟩ := hmem
    refine ⟨.rest, trivial, rfl, by simp [goto, Phase.hand], fun q hsize _ _ => ?_⟩
    simp [next, hphase, Act.apply, hsize]
  | publish h =>
    have hheld : pool.Tagged h (.free, true) := hhand h (by simp [hphase, Phase.hand])
    simp only [next, hphase, hheld.publish hclosed] at hmem
    cases hsealed : pool.isSealed with
    | false =>
      simp only [hsealed, Bool.false_eq_true, if_false, List.mem_singleton, Prod.mk.injEq] at hmem
      obtain ⟨rfl, rfl, rfl⟩ := hmem
      refine ⟨.publish h, ⟨hheld, hsealed⟩, by simp [Act.apply, hsealed],
        by simp [goto, Phase.hand], fun q _ hq hready => ?_⟩
      simp [next, hphase, hready.1.publish hq, hready.2, Act.apply]
    | true =>
      simp only [hsealed, if_true, List.mem_singleton, Prod.mk.injEq] at hmem
      obtain ⟨rfl, rfl, rfl⟩ := hmem
      refine ⟨.refuse h, ⟨hheld, hsealed⟩, rfl, by simp [goto, Phase.hand], fun q _ hq hready => ?_⟩
      simp [next, hphase, hready.1.publish hq, hready.2, Act.apply]
  | count =>
    simp only [next, hphase, List.mem_singleton, Prod.mk.injEq] at hmem
    obtain ⟨rfl, rfl, rfl⟩ := hmem
    refine ⟨.rest, trivial, rfl, by simp [Phase.hand], fun q _ _ _ => ?_⟩
    simp [next, hphase, Act.apply]

/-- What a step of the assembler does to the pool is an act, after which the assembler
holds the chunk it reads; and the step is the same in every pool that is ready for the
act. -/
theorem Assembler.exists_act {signals : Signals} {a a' : Assembler} {pool pool' : Pool}
    {x x' : Exchange} {writing reading : List Nat} (hcancelled : signals.cancelled = false)
    (hclosed : pool.isClosed = false) (hp : pool.Placed writing reading)
    (hhand : ∀ h ∈ a.phase.hand, pool.Tagged h (.busy, true))
    (hmem : (a', pool', x') ∈ a.next signals pool x) :
    ∃ act : Act, act.Ready pool ∧ pool' = act.apply pool ∧
      (∀ h ∈ a'.phase.hand, pool'.Tagged h (.busy, true)) ∧
      ∀ q : Pool, q.isClosed = false → act.Ready q →
        (a', act.apply q, x') ∈ a.next signals q x := by
  cases hphase : a.phase with
  | idle | returned => simp [next, hphase] at hmem
  | start | count | failed =>
    simp only [next, hphase, List.mem_singleton, Prod.mk.injEq] at hmem
    obtain ⟨rfl, rfl, rfl⟩ := hmem
    refine ⟨.rest, trivial, rfl, ?_, fun q _ _ => ?_⟩
    · cases signals.running <;> simp [goto, Phase.hand]
    · simp [next, hphase, Act.apply]
  | acquire =>
    simp only [next, hphase, hcancelled, List.mem_append, List.mem_map] at hmem
    rcases hmem with ⟨o, ho, heq⟩ | hnot
    · rcases Pool.mem_busyOutcomes.mp ho with ⟨hnot, -⟩ | ⟨h, rest, hbusy, rfl⟩ |
        ⟨hbusy, hsealed, rfl⟩
      · simp [hclosed] at hnot
      · cases heq
        have hplace : h ∈ pool.place writing reading (.busy, false) := by simp [Pool.place, hbusy]
        have htagged := hp.tagged hplace
        refine ⟨.fetch h, ⟨by simp [hbusy], htagged⟩, by simp [Act.apply, hbusy], ?_,
          fun q _ hq => ?_⟩
        · intro k hk
          obtain rfl : k = h := by simpa [goto, Phase.hand] using hk
          exact htagged.held rfl
        · obtain ⟨rest', hbusy'⟩ := List.head?_eq_some_iff.mp hq.1
          rw [next, hphase]
          refine List.mem_append_left _ (List.mem_map.mpr
            ⟨_, Pool.mem_busyOutcomes.mpr (.inr (.inl ⟨h, rest', hbusy', rfl⟩)), ?_⟩)
          simp [Act.apply, hbusy']
      · cases heq
        refine ⟨.drained, ⟨hbusy, hsealed⟩, rfl, by simp [goto, Phase.hand], fun q _ hq => ?_⟩
        rw [next, hphase]
        exact List.mem_append_left _ (List.mem_map.mpr
          ⟨_, Pool.mem_busyOutcomes.mpr (.inr (.inr ⟨hq.1, hq.2, rfl⟩)), rfl⟩)
    · simp at hnot
  | inspect h =>
    have hheld : pool.Tagged h (.busy, true) := hhand h (by simp [hphase, Phase.hand])
    simp only [next, hphase] at hmem
    split at hmem
    · rename_i hcore
      simp only [giveUp, releasing, hheld.release, List.mem_singleton, Prod.mk.injEq] at hmem
      obtain ⟨rfl, rfl, rfl⟩ := hmem
      refine ⟨.release h (pool.slot h).bytes, ⟨hheld, rfl⟩, rfl, by simp [goto, Phase.hand],
        fun q _ hq => ?_⟩
      simp only [next, hphase, hq.2, if_pos hcore, giveUp, releasing, hq.1.release, Act.apply,
        List.mem_singleton]
    · rename_i hcore
      simp only [List.mem_singleton, Prod.mk.injEq] at hmem
      obtain ⟨rfl, rfl, rfl⟩ := hmem
      refine ⟨.look h (pool'.slot h).bytes, ⟨hheld, rfl⟩, rfl, ?_, fun q _ hq => ?_⟩
      · cases a.current <;> simpa [goto, Phase.hand] using hheld
      · simp only [next, hphase, hq.2, if_neg hcore, Act.apply, List.mem_singleton]
  | claim h core =>
    have hheld : pool.Tagged h (.busy, true) := hhand h (by simp [hphase, Phase.hand])
    cases hclaim : x.claim with
    | none => simp [next, hphase, hclaim, hcancelled] at hmem
    | some claimed =>
      simp only [next, hphase, hclaim, hcancelled, Bool.false_eq_true, if_false, List.append_nil,
        List.mem_singleton, Prod.mk.injEq] at hmem
      obtain ⟨rfl, rfl, rfl⟩ := hmem
      refine ⟨.rest, trivial, rfl, by simpa [Phase.hand] using hheld, fun q _ _ => ?_⟩
      simp [next, hphase, hclaim, Act.apply]
  | unpack h core =>
    have hheld : pool.Tagged h (.busy, true) := hhand h (by simp [hphase, Phase.hand])
    simp only [next, hphase, releasing, hheld.release, List.mem_singleton, Prod.mk.injEq] at hmem
    obtain ⟨rfl, rfl, rfl⟩ := hmem
    refine ⟨.release h (pool.slot h).bytes, ⟨hheld, rfl⟩, rfl, by simp [goto, Phase.hand],
      fun q _ hq => ?_⟩
    simp [next, hphase, hq.2, releasing, hq.1.release, Act.apply]
  | file core state =>
    obtain ⟨hphase', rfl, hnext⟩ : a'.phase.hand = [] ∧ pool' = pool ∧
        ∀ q, (a', q, x') ∈ a.next signals q x := by
      simp only [next, hphase] at hmem ⊢
      cases hcurrent : a.current with
      | none => simp [hcurrent] at hmem
      | some t =>
        cases hput : x.put t core state with
        | error e => simp_all [goto, Phase.hand]
        | ok x₁ => cases hstamp : x₁.stamp t <;> simp_all [goto, Phase.hand]
    exact ⟨.rest, trivial, rfl, by simp [hphase'], fun q _ _ => hnext q⟩
  | deliver =>
    obtain ⟨hphase', rfl, hnext⟩ : a'.phase.hand = [] ∧ pool' = pool ∧
        ∀ q, (a', q, x') ∈ a.next signals q x := by
      simp only [next, hphase] at hmem ⊢
      cases hcurrent : a.current with
      | none => simp [hcurrent] at hmem
      | some t => cases hoffer : x.offer t <;> simp_all [Phase.hand]
    exact ⟨.rest, trivial, rfl, by simp [hphase'], fun q _ _ => hnext q⟩

/-! ## No choice -/

/-- A reader whom nobody stops has one step to take at most. -/
theorem Reader.length_next_le {signals : Signals} {r : Reader} {source : Source} {pool : Pool}
    (hcancelled : signals.cancelled = false) (hclosed : pool.isClosed = false) :
    (r.next signals source pool).length ≤ 1 := by
  unfold next
  cases r.phase with
  | acquire =>
    cases hfree : pool.free <;> simp [Pool.freeOutcomes, hfree, hclosed, hcancelled]
  | fill h got =>
    dsimp only
    split
    · simp
    · split <;> simp
  | publish h =>
    dsimp only
    split <;> simp
  | _ => simp

/-- An assembler whom nobody stops has one step to take at most. -/
theorem Assembler.length_next_le {signals : Signals} {a : Assembler} {pool : Pool} {x : Exchange}
    (hcancelled : signals.cancelled = false) (hclosed : pool.isClosed = false) :
    (a.next signals pool x).length ≤ 1 := by
  unfold next
  cases a.phase with
  | acquire =>
    cases hbusy : pool.busy <;> cases hsealed : pool.isSealed <;>
      simp [Pool.busyOutcomes, hbusy, hsealed, hclosed, hcancelled]
  | inspect h =>
    dsimp only
    split <;> simp
  | claim h core => cases hclaim : x.claim <;> simp [hcancelled]
  | file core state =>
    dsimp only
    split
    · simp
    · split
      · simp
      · split <;> simp
  | deliver =>
    dsimp only
    split
    · simp
    · split <;> simp
  | _ => simp

end Cosim

import Cosim.Pool
import Mathlib.Data.List.Nodup

/-!
# Where the chunks of a pool are

Every handle of a pool is in one of four places: in the free queue, with someone
who fills it, in the busy queue, or with someone who reads it.  The tag of its
slot, the state and whether it is checked out, tells which.  `Pool.Placed` says
that tags and places agree.

* `Placed.move` is the only way in which places change: one handle leaves a
  place and goes to the end of another.  `acquireFree`, `publish`, `acquireBusy`
  and `release` are its four cases.
* `Pool.waiting` is what the busy queue holds, as chunks of bytes.  Publishing
  appends to it, acquiring takes from its front, and nothing else touches it:
  bytes are only written to a chunk that someone fills.
-/

namespace Cosim

/-- What tells the place of a slot: its state, and whether it is checked out. -/
abbrev Tag := ChunkState × Bool

/-- The tag of a slot. -/
def Slot.tag (s : Slot) : Tag := (s.state, s.held)

namespace Pool

variable {p p' : Pool} {writing reading : List Nat} {h h' : Nat} {a b : Tag}

/-- The handles in the place that a tag stands for. -/
def place (p : Pool) (writing reading : List Nat) : Tag → List Nat
  | (.free, false) => p.free
  | (.free, true) => writing
  | (.busy, false) => p.busy
  | (.busy, true) => reading

/-- Every handle is in the place that its tag stands for, once. -/
structure Placed (p : Pool) (writing reading : List Nat) : Prop where
  nodup : ∀ tag, (p.place writing reading tag).Nodup
  mem_iff : ∀ tag h, h ∈ p.place writing reading tag ↔ h < p.depth ∧ (p.slot h).tag = tag
  count_eq : p.busyCount = p.busy.length + reading.length
  length_eq : ∀ h < p.depth, (p.slot h).bytes.length = p.size

/-- The chunks in the busy queue, oldest first. -/
def waiting (p : Pool) : List (List UInt8) := p.busy.map fun h => (p.slot h).bytes

/-- The dimensions of a pool and its end, which chunks changing hands leave
alone. -/
structure Frame (p p' : Pool) : Prop where
  size_eq : p'.size = p.size
  depth_eq : p'.depth = p.depth
  sealed_eq : p'.isSealed = p.isSealed
  closed_eq : p'.isClosed = p.isClosed

/-! ## Slots -/

@[simp] theorem depth_updateSlot (p : Pool) (h : Nat) (f : Slot → Slot) :
    (p.updateSlot h f).depth = p.depth := by
  simp [updateSlot, depth]

theorem slot_updateSlot (f : Slot → Slot) (hh : h < p.depth) :
    (p.updateSlot h f).slot h = f (p.slot h) := by
  unfold depth at hh
  simp only [updateSlot, slot, Array.getD_eq_getD_getElem?]
  rw [Array.getElem?_modify, if_pos rfl, Array.getElem?_eq_getElem hh]
  rfl

theorem slot_updateSlot_ne (p : Pool) (f : Slot → Slot) (hne : h' ≠ h) :
    (p.updateSlot h f).slot h' = p.slot h' := by
  simp only [updateSlot, slot, Array.getD_eq_getD_getElem?]
  rw [Array.getElem?_modify, if_neg hne.symm]

/-! ## What acquiring can lead to -/

theorem mem_freeOutcomes {o : Except Error (Nat × Pool)} :
    o ∈ p.freeOutcomes ↔ p.isClosed = true ∧ o = .error .poolClosed ∨
      ∃ h rest, p.free = h :: rest ∧
        o = .ok (h, { p with free := rest }.updateSlot h fun s => { s with held := true }) := by
  unfold freeOutcomes
  cases p.isClosed <;> cases hfree : p.free <;> simp

theorem mem_busyOutcomes {o : Except Error (Nat × Pool)} :
    o ∈ p.busyOutcomes ↔ p.isClosed = true ∧ o = .error .poolClosed ∨
      (∃ h rest, p.busy = h :: rest ∧
        o = .ok (h, { p with busy := rest }.updateSlot h fun s => { s with held := true })) ∨
      p.busy = [] ∧ p.isSealed = true ∧ o = .error .poolClosed := by
  unfold busyOutcomes
  cases p.isClosed <;> cases p.isSealed <;> cases hbusy : p.busy <;> simp

/-- A free chunk is acquired from the front of its queue. -/
theorem ok_mem_freeOutcomes : .ok (h, p') ∈ p.freeOutcomes ↔
    ∃ rest, p.free = h :: rest ∧
      p' = { p with free := rest }.updateSlot h fun s => { s with held := true } := by
  rw [mem_freeOutcomes]
  constructor
  · rintro (⟨-, herror⟩ | ⟨k, rest, hfree, heq⟩)
    · cases herror
    · cases heq
      exact ⟨rest, hfree, rfl⟩
  · rintro ⟨rest, hfree, rfl⟩
    exact .inr ⟨h, rest, hfree, rfl⟩

/-- A busy chunk is acquired from the front of its queue. -/
theorem ok_mem_busyOutcomes : .ok (h, p') ∈ p.busyOutcomes ↔
    ∃ rest, p.busy = h :: rest ∧
      p' = { p with busy := rest }.updateSlot h fun s => { s with held := true } := by
  rw [mem_busyOutcomes]
  constructor
  · rintro (⟨-, herror⟩ | ⟨k, rest, hbusy, heq⟩ | ⟨-, -, herror⟩)
    · cases herror
    · cases heq
      exact ⟨rest, hbusy, rfl⟩
    · cases herror
  · rintro ⟨rest, hbusy, rfl⟩
    exact .inr (.inl ⟨h, rest, hbusy, rfl⟩)

/-- A caller holds the chunk of a handle exactly if the tag of its slot says so. -/
theorem checkHeld_eq_ok {action : PoolAction} {want : ChunkState} {i : Int} :
    p.checkHeld action i want = .ok h ↔
      (h : Int) = i ∧ h < p.depth ∧ (p.slot h).tag = (want, true) := by
  unfold checkHeld
  split
  · rename_i hrange
    simp only [reduceCtorEq, false_iff]
    omega
  · rename_i hrange
    dsimp only
    split
    · rename_i hheld
      simp only [Except.ok.injEq, Slot.tag, Prod.mk.injEq]
      constructor
      · rintro rfl
        exact ⟨by omega, by omega, hheld.2, hheld.1⟩
      · rintro ⟨rfl, -⟩
        exact Int.toNat_natCast h
    · rename_i hheld
      simp only [reduceCtorEq, Slot.tag, Prod.mk.injEq, false_iff]
      rintro ⟨rfl, -, hstate, hheld'⟩
      exact hheld ⟨hheld', hstate⟩

/-- What publishing does, and what it has checked by then. -/
theorem publish_eq_ok {i : Int} (hok : p.publish i = .ok p') :
    ∃ h : Nat, (h : Int) = i ∧ h < p.depth ∧ (p.slot h).tag = (.free, true) ∧
      p.isSealed = false ∧ p.isClosed = false ∧
      p' = { p with busy := p.busy ++ [h], busyCount := p.busyCount + 1 }.updateSlot h
        fun s => { s with state := .busy, held := false } := by
  unfold publish at hok
  cases hheld : p.checkHeld .publish i .free with
  | error e => simp [hheld, bind, Except.bind] at hok
  | ok h =>
    obtain ⟨hi, hlt, htag⟩ := checkHeld_eq_ok.mp hheld
    refine ⟨h, hi, hlt, htag, ?_⟩
    cases hsealed : p.isSealed <;> cases hclosed : p.isClosed <;>
      simp_all [bind, Except.bind, throw, throwThe, MonadExceptOf.throw, pure, Except.pure]

/-- What releasing does, and what it has checked by then. -/
theorem release_eq_ok {i : Int} (hok : p.release i = .ok p') :
    ∃ h : Nat, (h : Int) = i ∧ h < p.depth ∧ (p.slot h).tag = (.busy, true) ∧
      p' = { p with free := p.free ++ [h], busyCount := p.busyCount - 1 }.updateSlot h
        fun s => { s with state := .free, held := false } := by
  unfold release at hok
  cases hheld : p.checkHeld .release i .busy with
  | error e => simp [hheld, bind, Except.bind] at hok
  | ok h =>
    obtain ⟨hi, hlt, htag⟩ := checkHeld_eq_ok.mp hheld
    simp only [hheld, bind, Except.bind, pure, Except.pure, Except.ok.injEq] at hok
    exact ⟨h, hi, hlt, htag, hok.symm⟩

theorem create_ok {depth size : Int} (hdepth : 1 ≤ depth) (hsize : 1 ≤ size)
    (hroom : checkRoom depth size = .ok ()) : ∃ p, create depth size = .ok p := by
  refine ⟨{ size := size.toNat,
            slots := Array.replicate depth.toNat { bytes := List.replicate size.toNat 0 },
            free := List.range depth.toNat }, ?_⟩
  simp only [create, if_neg (show ¬ depth < 1 by omega), if_neg (show ¬ size < 1 by omega), hroom,
    bind, Except.bind]
  rfl

/-- What a new pool looks like. -/
theorem create_eq_ok {depth size : Int} (hcreate : create depth size = .ok p) :
    1 ≤ depth ∧ 1 ≤ size ∧
      p = { size := size.toNat,
            slots := Array.replicate depth.toNat { bytes := List.replicate size.toNat 0 },
            free := List.range depth.toNat } := by
  unfold create at hcreate
  by_cases hdepth : depth < 1
  · simp [hdepth, bind, Except.bind, throw, throwThe, MonadExceptOf.throw] at hcreate
  by_cases hsize : size < 1
  · simp [hdepth, hsize, bind, Except.bind, throw, throwThe, MonadExceptOf.throw] at hcreate
  cases hroom : checkRoom depth size with
  | error fault =>
    simp [hdepth, hsize, hroom, bind, Except.bind] at hcreate
  | ok =>
    simp only [hdepth, hsize, hroom, bind, Except.bind, pure, Except.pure, if_false,
      Except.ok.injEq] at hcreate
    exact ⟨by omega, by omega, hcreate.symm⟩

/-- A new pool has all its chunks in the free queue. -/
theorem placed_create {depth size : Int} (hcreate : create depth size = .ok p) :
    p.Placed [] [] ∧ p.size = size.toNat ∧ 0 < p.depth ∧ p.isSealed = false ∧
      p.isClosed = false ∧ p.busy = [] := by
  obtain ⟨hdepth, -, rfl⟩ := create_eq_ok hcreate
  have hslot : ∀ h < depth.toNat,
      (Array.replicate depth.toNat ({ bytes := List.replicate size.toNat 0 } : Slot)).getD h
        { bytes := [] } = { bytes := List.replicate size.toNat 0 } := by
    intro h hh
    simp [Array.getD_eq_getD_getElem?, hh]
  refine ⟨⟨?_, ?_, rfl, ?_⟩, rfl, ?_, rfl, rfl, rfl⟩
  · rintro ⟨_ | _, _ | _⟩ <;> simp [place, List.nodup_range]
  · rintro tag h
    by_cases hh : h < depth.toNat
    · rcases tag with ⟨_ | _, _ | _⟩ <;> simp [place, Pool.depth, slot, Slot.tag, hh]
    · rcases tag with ⟨_ | _, _ | _⟩ <;> simp [place, Pool.depth, hh]
  · intro h hh
    simp only [slot, hslot h (by simpa [Pool.depth] using hh)]
    simp
  · simp only [Pool.depth, Array.size_replicate]
    omega

namespace Placed

theorem lt_depth (hp : p.Placed writing reading) (hmem : h ∈ p.place writing reading a) :
    h < p.depth :=
  ((hp.mem_iff a h).mp hmem).1

theorem tag_eq (hp : p.Placed writing reading) (hmem : h ∈ p.place writing reading a) :
    (p.slot h).tag = a :=
  ((hp.mem_iff a h).mp hmem).2

/-- A handle is in one place only. -/
theorem not_mem (hp : p.Placed writing reading) (hmem : h ∈ p.place writing reading a)
    (hne : a ≠ b) : h ∉ p.place writing reading b := by
  intro hb
  exact hne ((hp.tag_eq hmem).symm.trans (hp.tag_eq hb))

/-- A handle leaves one place and goes to the end of another. -/
theorem move (hp : p.Placed writing reading) (hmem : h ∈ p.place writing reading a)
    (hab : a ≠ b) {f : Slot → Slot} (htag : (f (p.slot h)).tag = b)
    (hbytes : (f (p.slot h)).bytes = (p.slot h).bytes) {q : Pool} {writing' reading' : List Nat}
    (hslots : q.slots = (p.updateSlot h f).slots) (hsize : q.size = p.size)
    (hleft : q.place writing' reading' a = (p.place writing reading a).erase h)
    (hjoined : q.place writing' reading' b = p.place writing reading b ++ [h])
    (hothers : ∀ tag, tag ≠ a → tag ≠ b →
      q.place writing' reading' tag = p.place writing reading tag)
    (hcount : q.busyCount = q.busy.length + reading'.length) :
    q.Placed writing' reading' := by
  have hlt := hp.lt_depth hmem
  have hdepth : q.depth = p.depth := by
    rw [← depth_updateSlot p h f]
    simp only [Pool.depth, hslots]
  have hslot : q.slot h = f (p.slot h) := by
    rw [← slot_updateSlot f hlt]
    simp only [slot, hslots]
  have hslot_ne : ∀ g, g ≠ h → q.slot g = p.slot g := by
    intro g hg
    rw [← slot_updateSlot_ne p f hg]
    simp only [slot, hslots]
  have hfresh := hp.not_mem hmem hab
  refine ⟨?_, ?_, hcount, ?_⟩
  · intro tag
    by_cases ha : tag = a
    · rw [ha, hleft]
      exact (hp.nodup a).erase h
    · by_cases hb : tag = b
      · rw [hb, hjoined]
        exact (hp.nodup b).append (List.nodup_singleton h) (by simpa using hfresh)
      · rw [hothers tag ha hb]
        exact hp.nodup tag
  · intro tag g
    rw [hdepth]
    by_cases hg : g = h
    · subst hg
      rw [hslot, htag]
      by_cases ha : tag = a
      · rw [ha, hleft]
        simp [(hp.nodup a).mem_erase_iff, hab.symm]
      · by_cases hb : tag = b
        · rw [hb, hjoined]
          simp [hlt]
        · rw [hothers tag ha hb]
          simp [hp.not_mem hmem (Ne.symm ha), Ne.symm hb]
    · rw [hslot_ne g hg, ← hp.mem_iff]
      by_cases ha : tag = a
      · rw [ha, hleft, (hp.nodup a).mem_erase_iff]
        simp [hg]
      · by_cases hb : tag = b
        · rw [hb, hjoined]
          simp [hg]
        · rw [hothers tag ha hb]
  · intro g hg
    rw [hdepth] at hg
    rw [hsize]
    by_cases hgh : g = h
    · rw [hgh, hslot, hbytes]
      exact hp.length_eq h hlt
    · rw [hslot_ne g hgh]
      exact hp.length_eq g hg

/-! ## The four moves -/

/-- A handle that is not in the busy queue does not matter for what waits. -/
theorem waiting_update {q : Pool} (f : Slot → Slot) (hh : h ∉ q.busy) :
    (q.updateSlot h f).waiting = q.waiting := by
  refine List.map_congr_left fun g hg => ?_
  have hne : g ≠ h := by
    rintro rfl
    exact hh hg
  rw [slot_updateSlot_ne q f hne]

/-- Changing the tag of a slot leaves all bytes alone. -/
theorem bytes_update {q : Pool} {f : Slot → Slot} (hh : h < q.depth)
    (hf : ∀ s, (f s).bytes = s.bytes) (g : Nat) :
    ((q.updateSlot h f).slot g).bytes = (q.slot g).bytes := by
  by_cases hg : g = h
  · rw [hg, slot_updateSlot f hh, hf]
  · rw [slot_updateSlot_ne q f hg]

/-- Acquiring a free chunk hands out the oldest one. -/
theorem acquireFree {rest : List Nat} (hp : p.Placed writing reading) (hfree : p.free = h :: rest)
    (hq : p' = { p with free := rest }.updateSlot h fun s => { s with held := true }) :
    p'.Placed (writing ++ [h]) reading ∧ Frame p p' ∧ p'.free = rest ∧
      p'.waiting = p.waiting ∧ ∀ g, (p'.slot g).bytes = (p.slot g).bytes := by
  have hmem : h ∈ p.place writing reading (.free, false) := by simp [place, hfree]
  have htag := hp.tag_eq hmem
  have hlt := hp.lt_depth hmem
  have hbusy : h ∉ p.busy := hp.not_mem hmem (b := (.busy, false)) (by decide)
  subst hq
  refine ⟨hp.move hmem (b := (.free, true)) (by decide) ?_ ?_ rfl rfl ?_ rfl ?_ hp.count_eq,
    ⟨rfl, by simp [Pool.depth, updateSlot], rfl, rfl⟩, rfl, waiting_update _ hbusy,
    bytes_update (q := { p with free := rest }) hlt fun _ => rfl⟩
  · simp_all [Slot.tag]
  · rfl
  · simp [place, hfree, updateSlot]
  · rintro ⟨_ | _, _ | _⟩ ha hb
    · exact absurd rfl ha
    · exact absurd rfl hb
    · rfl
    · rfl

/-- Acquiring a busy chunk hands out the oldest one. -/
theorem acquireBusy {rest : List Nat} (hp : p.Placed writing reading) (hbusy : p.busy = h :: rest)
    (hq : p' = { p with busy := rest }.updateSlot h fun s => { s with held := true }) :
    p'.Placed writing (reading ++ [h]) ∧ Frame p p' ∧ p'.free = p.free ∧ p'.busy = rest ∧
      p.waiting = (p'.slot h).bytes :: p'.waiting ∧
      ∀ g, (p'.slot g).bytes = (p.slot g).bytes := by
  have hmem : h ∈ p.place writing reading (.busy, false) := by simp [place, hbusy]
  have htag := hp.tag_eq hmem
  have hlt := hp.lt_depth hmem
  have hnodup : (h :: rest).Nodup := by
    rw [← hbusy]
    exact hp.nodup (.busy, false)
  have hrest : h ∉ rest := (List.nodup_cons.mp hnodup).1
  have hbytes := bytes_update (q := { p with busy := rest }) hlt
    (f := fun s => { s with held := true }) fun _ => rfl
  subst hq
  refine ⟨hp.move hmem (b := (.busy, true)) (by decide) ?_ ?_ rfl rfl ?_ rfl ?_ ?_,
    ⟨rfl, by simp [Pool.depth, updateSlot], rfl, rfl⟩, rfl, rfl, ?_, hbytes⟩
  · simp_all [Slot.tag]
  · rfl
  · simp [place, hbusy, updateSlot]
  · rintro ⟨_ | _, _ | _⟩ ha hb
    · rfl
    · rfl
    · exact absurd rfl ha
    · exact absurd rfl hb
  · have := hp.count_eq
    simp only [hbusy, List.length_cons] at this
    simp [updateSlot, this]
    omega
  · rw [waiting_update _ (q := { p with busy := rest }) hrest, hbytes]
    simp only [waiting, hbusy, List.map_cons]
    rfl

theorem checkHeld_of_mem {action : PoolAction} {want : ChunkState}
    (hp : p.Placed writing reading) (hmem : h ∈ p.place writing reading (want, true)) :
    p.checkHeld action h want = .ok h := by
  have htag := hp.tag_eq hmem
  have hlt := hp.lt_depth hmem
  simp only [Slot.tag, Prod.mk.injEq] at htag
  have hrange : ¬ ((h : Int) < 0 ∨ (p.depth : Int) ≤ h) := by omega
  rw [checkHeld, if_neg hrange]
  simp [htag]

/-- Publishing a chunk that one fills works until the pool ends. -/
theorem publish (hp : p.Placed writing reading) (hmem : h ∈ writing)
    (hopen : p.isSealed = false ∧ p.isClosed = false) :
    ∃ p', p.publish h = .ok p' ∧ p'.Placed (writing.erase h) reading ∧ Frame p p' ∧
      p'.free = p.free ∧ p'.busy = p.busy ++ [h] ∧
      p'.waiting = p.waiting ++ [(p.slot h).bytes] ∧
      ∀ g, (p'.slot g).bytes = (p.slot g).bytes := by
  have hplace : h ∈ p.place writing reading (.free, true) := hmem
  have htag := hp.tag_eq hplace
  have hlt := hp.lt_depth hplace
  have hbytes := bytes_update (q := p) hlt
    (f := fun s => { s with state := .busy, held := false }) fun _ => rfl
  refine ⟨{ p with busy := p.busy ++ [h], busyCount := p.busyCount + 1 }.updateSlot h
      fun s => { s with state := .busy, held := false }, ?_,
    hp.move hplace (b := (.busy, false)) (by decide) ?_ ?_ rfl rfl rfl rfl ?_ ?_,
    ⟨rfl, by simp [Pool.depth, updateSlot], rfl, rfl⟩, rfl, rfl, ?_, hbytes⟩
  · simp only [Pool.publish, hp.checkHeld_of_mem hplace, hopen, bind, Except.bind]
    rfl
  · rfl
  · rfl
  · rintro ⟨_ | _, _ | _⟩ ha hb
    · rfl
    · exact absurd rfl ha
    · exact absurd rfl hb
    · rfl
  · have := hp.count_eq
    simp [updateSlot, this]
    omega
  · simp only [waiting, updateSlot, List.map_append, List.map_cons, List.map_nil]
    congr 1
    · exact List.map_congr_left fun g _ => hbytes g
    · exact congrArg (fun b => [b]) (hbytes h)

theorem publish_closed (hp : p.Placed writing reading) (hmem : h ∈ writing)
    (hover : p.isSealed = true ∨ p.isClosed = true) : p.publish h = .error .poolClosed := by
  simp only [Pool.publish, hp.checkHeld_of_mem (show h ∈ p.place writing reading (.free, true) from
    hmem), hover, bind, Except.bind]
  rfl

/-- Releasing a chunk that one reads always works. -/
theorem release (hp : p.Placed writing reading) (hmem : h ∈ reading) :
    ∃ p', p.release h = .ok p' ∧ p'.Placed writing (reading.erase h) ∧ Frame p p' ∧
      p'.free = p.free ++ [h] ∧ p'.busy = p.busy ∧ p'.waiting = p.waiting ∧
      ∀ g, (p'.slot g).bytes = (p.slot g).bytes := by
  have hplace : h ∈ p.place writing reading (.busy, true) := hmem
  have htag := hp.tag_eq hplace
  have hlt := hp.lt_depth hplace
  have hbusy : h ∉ p.busy := hp.not_mem hplace (b := (.busy, false)) (by decide)
  have hbytes := bytes_update (q := p) hlt
    (f := fun s => { s with state := .free, held := false }) fun _ => rfl
  refine ⟨{ p with free := p.free ++ [h], busyCount := p.busyCount - 1 }.updateSlot h
      fun s => { s with state := .free, held := false }, ?_,
    hp.move hplace (b := (.free, false)) (by decide) ?_ ?_ rfl rfl rfl rfl ?_ ?_,
    ⟨rfl, by simp [Pool.depth, updateSlot], rfl, rfl⟩, rfl, rfl, ?_, hbytes⟩
  · simp only [Pool.release, hp.checkHeld_of_mem hplace, bind, Except.bind]
    rfl
  · rfl
  · rfl
  · rintro ⟨_ | _, _ | _⟩ ha hb
    · exact absurd rfl hb
    · rfl
    · rfl
    · exact absurd rfl ha
  · have := hp.count_eq
    have hpos := List.length_pos_of_mem hmem
    simp [updateSlot, this, List.length_erase_of_mem hmem]
    omega
  · exact List.map_congr_left fun g _ => hbytes g

/-! ## Operations that move nothing -/

/-- Writing to a chunk that one fills changes no other bytes. -/
theorem write {offset : Nat} {data : List UInt8} (hp : p.Placed writing reading)
    (hmem : h ∈ writing) (hfit : offset + data.length ≤ p.size) :
    (p.write h offset data).Placed writing reading ∧ Frame p (p.write h offset data) ∧
      (p.write h offset data).waiting = p.waiting ∧
      (∀ g, g ≠ h → (p.write h offset data).slot g = p.slot g) ∧
      ((p.write h offset data).slot h).bytes =
        (p.slot h).bytes.take offset ++ data ++ (p.slot h).bytes.drop (offset + data.length) := by
  have hplace : h ∈ p.place writing reading (.free, true) := hmem
  have hlt := hp.lt_depth hplace
  have hbusy : h ∉ p.busy := hp.not_mem hplace (b := (.busy, false)) (by decide)
  have hlen := hp.length_eq h hlt
  have hdata : data.take (p.size - offset) = data := List.take_of_length_le (by omega)
  obtain ⟨f, hf, hwrite⟩ : ∃ f : Slot → Slot,
      (∀ s, f s = ⟨s.bytes.take offset ++ data ++ s.bytes.drop (offset + data.length), s.state,
        s.held⟩) ∧ p.write h offset data = p.updateSlot h f :=
    ⟨_, fun _ => rfl, by simp only [Pool.write, hdata]⟩
  rw [hwrite]
  have htags : ∀ g, ((p.updateSlot h f).slot g).tag = (p.slot g).tag := by
    intro g
    by_cases hg : g = h
    · rw [hg, slot_updateSlot _ hlt, hf]
      rfl
    · rw [slot_updateSlot_ne p _ hg]
  refine ⟨⟨hp.nodup, ?_, hp.count_eq, ?_⟩, ⟨rfl, depth_updateSlot _ _ _, rfl, rfl⟩,
    waiting_update _ hbusy, fun g => slot_updateSlot_ne p _, by rw [slot_updateSlot _ hlt, hf]⟩
  · intro tag g
    rw [htags, depth_updateSlot]
    exact hp.mem_iff tag g
  · intro g hg
    rw [depth_updateSlot] at hg
    by_cases hgh : g = h
    · rw [hgh, slot_updateSlot _ hlt, hf]
      simp only [List.length_append, List.length_take, List.length_drop, hlen, updateSlot]
      omega
    · rw [slot_updateSlot_ne p _ hgh]
      exact hp.length_eq g hg

/-- The busy queue holds whole chunks. -/
theorem length_waiting (hp : p.Placed writing reading) :
    p.waiting.flatten.length = p.size * p.busy.length := by
  have hall : ∀ n ∈ p.waiting.map List.length, n = p.size := by
    intro n hn
    simp only [waiting, List.map_map, List.mem_map, Function.comp_apply] at hn
    obtain ⟨h, hmem, rfl⟩ := hn
    exact hp.length_eq h (hp.lt_depth (a := (.busy, false)) hmem)
  rw [List.length_flatten, List.eq_replicate_of_mem hall, List.sum_replicate_nat]
  simp [waiting, Nat.mul_comm]

/-- A pool whose chunks are nowhere in a queue has them all in someone's hands. -/
theorem held_of_empty (hp : p.Placed writing reading) (hpos : 0 < p.depth) (hfree : p.free = [])
    (hbusy : p.busy = []) : writing ≠ [] ∨ reading ≠ [] := by
  have hzero := (hp.mem_iff (p.slot 0).tag 0).mpr ⟨hpos, rfl⟩
  rcases htag : (p.slot 0).tag with ⟨_ | _, _ | _⟩ <;> rw [htag] at hzero
  · simp [place, hfree] at hzero
  · exact .inl (List.ne_nil_of_mem hzero)
  · simp [place, hbusy] at hzero
  · exact .inr (List.ne_nil_of_mem hzero)

end Placed

end Pool

end Cosim

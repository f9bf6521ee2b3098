import Cosim.Proofs.Pool
import Mathlib.Data.List.Perm.Basic
import Mathlib.Logic.Relation

/-!
# Custody of the chunks of a pool

A pool and the calls that any number of callers make on it: with any handles, in
any order, and whether or not they are entitled to them.  Acquiring a chunk takes two
steps, because other calls may come between taking its handle off a queue and
marking its slot.  All other calls are single steps.  A call that has to wait, or
gives up waiting, changes nothing and is no step.

* `Custody` is the pool together with the handles that its callers have.
* `Custody.resting` is the pool as it was before the calls under way began: a handle
  that is on its way still counts as queued.  `Pool.Placed` of this pool is the
  invariant.
* `Custody.Tidy` says where the chunks are, what the busy count says, and that a
  call that appends to a queue finds room there.
* `Custody.tidy_of_reach` is the main statement.
-/

namespace Cosim

/-- Mark a chunk as checked out, the second step of acquiring it. -/
def Pool.hold (p : Pool) (h : Nat) : Pool := p.updateSlot h fun s => { s with held := true }

/-- A pool and the handles that its callers have. -/
structure Custody where
  pool : Pool
  /-- Taken off the free queue by calls that have not returned yet. -/
  leaving : List Nat := []
  /-- Checked out by calls that acquired a free chunk. -/
  writing : List Nat := []
  /-- Taken off the busy queue by calls that have not returned yet. -/
  arriving : List Nat := []
  /-- Checked out by calls that acquired a busy chunk. -/
  reading : List Nat := []

namespace Custody

/-- One step of a call. -/
inductive Move : Custody → Custody → Prop where
  | receiveFree {c h rest} (hfree : c.pool.free = h :: rest) :
      Move c { c with pool := { c.pool with free := rest }, leaving := c.leaving ++ [h] }
  | holdFree {c h} (hmem : h ∈ c.leaving) :
      Move c
        { c with
          pool := c.pool.hold h, leaving := c.leaving.erase h, writing := c.writing ++ [h] }
  | receiveBusy {c h rest} (hbusy : c.pool.busy = h :: rest) :
      Move c { c with pool := { c.pool with busy := rest }, arriving := c.arriving ++ [h] }
  | holdBusy {c h} (hmem : h ∈ c.arriving) :
      Move c
        { c with
          pool := c.pool.hold h, arriving := c.arriving.erase h, reading := c.reading ++ [h] }
  | publish {c p} (i : Int) (hok : c.pool.publish i = .ok p) :
      Move c { c with pool := p, writing := c.writing.erase i.toNat }
  | publishRefused {c e} (i : Int) (herror : c.pool.publish i = .error e) : Move c c
  | release {c p} (i : Int) (hok : c.pool.release i = .ok p) :
      Move c { c with pool := p, reading := c.reading.erase i.toNat }
  | releaseRefused {c e} (i : Int) (herror : c.pool.release i = .error e) : Move c c
  | finish {c} : Move c { c with pool := c.pool.finish }
  | close {c} : Move c { c with pool := c.pool.close }

/-- Any number of steps of any calls. -/
abbrev Reach : Custody → Custody → Prop := Relation.ReflTransGen Move

variable {c c' : Custody} {h : Nat} {p : Pool}

/-- A call that acquires a free chunk and is not interrupted takes both steps. -/
theorem reach_acquireFree (hleaving : c.leaving = [])
    (hok : .ok (h, p) ∈ c.pool.freeOutcomes) :
    Reach c { c with pool := p, writing := c.writing ++ [h] } := by
  obtain ⟨rest, hfree, rfl⟩ := Pool.ok_mem_freeOutcomes.mp hok
  have hfirst := Relation.ReflTransGen.single (Move.receiveFree hfree)
  have hsecond := hfirst.tail (.holdFree (h := h) (by simp))
  simpa [hleaving, Pool.hold] using hsecond

/-- A call that acquires a busy chunk and is not interrupted takes both steps. -/
theorem reach_acquireBusy (harriving : c.arriving = [])
    (hok : .ok (h, p) ∈ c.pool.busyOutcomes) :
    Reach c { c with pool := p, reading := c.reading ++ [h] } := by
  obtain ⟨rest, hbusy, rfl⟩ := Pool.ok_mem_busyOutcomes.mp hok
  have hfirst := Relation.ReflTransGen.single (Move.receiveBusy hbusy)
  have hsecond := hfirst.tail (.holdBusy (h := h) (by simp))
  simpa [harriving, Pool.hold] using hsecond

/-! ## The invariant -/

/-- The pool before the calls under way began. -/
def resting (c : Custody) : Pool :=
  { c.pool with free := c.leaving ++ c.pool.free, busy := c.arriving ++ c.pool.busy }

/-- Every chunk is where its tag says, as far as calls have returned. -/
def Inv (c : Custody) : Prop := c.resting.Placed c.writing c.reading

theorem Inv.holdFree (inv : c.Inv) (hmem : h ∈ c.leaving) :
    { c with
      pool := c.pool.hold h, leaving := c.leaving.erase h, writing := c.writing ++ [h] }.Inv := by
  have hplace : h ∈ c.resting.place c.writing c.reading (.free, false) :=
    List.mem_append_left _ hmem
  have htag := inv.tag_eq hplace
  refine inv.move hplace (b := (.free, true)) (f := fun s => { s with held := true }) (by decide)
    ?_ rfl rfl rfl ?_ rfl ?_ inv.count_eq
  · simp_all [Slot.tag]
  · exact (List.erase_append_left _ hmem).symm
  · rintro ⟨_ | _, _ | _⟩ ha hb
    · exact absurd rfl ha
    · exact absurd rfl hb
    · rfl
    · rfl

theorem Inv.holdBusy (inv : c.Inv) (hmem : h ∈ c.arriving) :
    { c with
      pool := c.pool.hold h, arriving := c.arriving.erase h, reading := c.reading ++ [h] }.Inv := by
  have hplace : h ∈ c.resting.place c.writing c.reading (.busy, false) :=
    List.mem_append_left _ hmem
  have htag := inv.tag_eq hplace
  refine inv.move hplace (b := (.busy, true)) (f := fun s => { s with held := true }) (by decide)
    ?_ rfl rfl rfl ?_ rfl ?_ ?_
  · simp_all [Slot.tag]
  · exact (List.erase_append_left _ hmem).symm
  · rintro ⟨_ | _, _ | _⟩ ha hb
    · rfl
    · rfl
    · exact absurd rfl ha
    · exact absurd rfl hb
  · have hcount := inv.count_eq
    have hpos := List.length_pos_of_mem hmem
    simp only [resting, Pool.hold, Pool.updateSlot, List.length_append, List.length_singleton,
      List.length_erase_of_mem hmem] at hcount ⊢
    omega

/-- A chunk that is published was being written. -/
theorem Inv.mem_writing (inv : c.Inv) {i : Int} (hok : c.pool.publish i = .ok p) :
    i.toNat ∈ c.writing := by
  obtain ⟨h, rfl, hlt, htag, -⟩ := Pool.publish_eq_ok hok
  exact (inv.mem_iff (.free, true) h).mpr ⟨hlt, htag⟩

/-- A chunk that is released was being read. -/
theorem Inv.mem_reading (inv : c.Inv) {i : Int} (hok : c.pool.release i = .ok p) :
    i.toNat ∈ c.reading := by
  obtain ⟨h, rfl, hlt, htag, -⟩ := Pool.release_eq_ok hok
  exact (inv.mem_iff (.busy, true) h).mpr ⟨hlt, htag⟩

theorem Inv.publish (inv : c.Inv) {i : Int} (hok : c.pool.publish i = .ok p) :
    { c with pool := p, writing := c.writing.erase i.toNat }.Inv := by
  have hmem := inv.mem_writing hok
  obtain ⟨h, rfl, -, -, hsealed, hclosed, rfl⟩ := Pool.publish_eq_ok hok
  obtain ⟨q, hq, hplaced, -⟩ := Pool.Placed.publish inv hmem ⟨hsealed, hclosed⟩
  obtain ⟨h', hh, -, -, -, -, rfl⟩ := Pool.publish_eq_ok hq
  obtain rfl : h' = h := by omega
  simpa only [Inv, resting, Pool.updateSlot, List.append_assoc] using hplaced

theorem Inv.release (inv : c.Inv) {i : Int} (hok : c.pool.release i = .ok p) :
    { c with pool := p, reading := c.reading.erase i.toNat }.Inv := by
  have hmem := inv.mem_reading hok
  obtain ⟨h, rfl, -, -, rfl⟩ := Pool.release_eq_ok hok
  obtain ⟨q, hq, hplaced, -⟩ := Pool.Placed.release inv hmem
  obtain ⟨h', hh, -, -, rfl⟩ := Pool.release_eq_ok hq
  obtain rfl : h' = h := by omega
  simpa only [Inv, resting, Pool.updateSlot, List.append_assoc] using hplaced

theorem Inv.move (inv : c.Inv) (hmove : Move c c') : c'.Inv := by
  cases hmove with
  | receiveFree hfree => simpa [Inv, resting, hfree] using inv
  | holdFree hmem => exact inv.holdFree hmem
  | receiveBusy hbusy => simpa [Inv, resting, hbusy] using inv
  | holdBusy hmem => exact inv.holdBusy hmem
  | publish i hok => exact inv.publish hok
  | release i hok => exact inv.release hok
  | publishRefused | releaseRefused => exact inv
  | finish | close => exact ⟨inv.nodup, inv.mem_iff, inv.count_eq, inv.length_eq⟩

theorem Inv.reach (inv : c.Inv) (hreach : Reach c c') : c'.Inv := by
  induction hreach with
  | refl => exact inv
  | tail _ hmove ih => exact ih.move hmove

/-- A new pool has nothing in its callers' hands. -/
theorem create_inv {depth size : Int} (hcreate : Pool.create depth size = .ok p) :
    { pool := p : Custody }.Inv :=
  (Pool.placed_create hcreate).1

/-! ## What the invariant says -/

/-- All handles, place by place. -/
def handles (c : Custody) : List Nat :=
  c.pool.free ++ c.leaving ++ c.writing ++ (c.pool.busy ++ c.arriving ++ c.reading)

/-- Every handle is in one place, once. -/
theorem Inv.handles_perm (inv : c.Inv) : c.handles.Perm (List.range c.pool.depth) := by
  have hcount : ∀ tag h, (c.resting.place c.writing c.reading tag).count h =
      if h < c.pool.depth ∧ (c.pool.slot h).tag = tag then 1 else 0 := by
    intro tag h
    rw [(inv.nodup tag).count]
    exact if_congr (inv.mem_iff tag h) rfl rfl
  rw [List.perm_iff_count]
  intro h
  -- The tag of a slot picks one of the four counts.
  have hfree := hcount (.free, false) h
  have hwriting := hcount (.free, true) h
  have hbusy := hcount (.busy, false) h
  have hreading := hcount (.busy, true) h
  simp only [Pool.place, resting, List.count_append] at hfree hwriting hbusy hreading
  simp only [handles, List.count_append]
  rw [List.nodup_range.count]
  by_cases hlt : h < c.pool.depth
  · rcases htag : (c.pool.slot h).tag with ⟨_ | _, _ | _⟩ <;>
      simp only [htag, hlt, reduceCtorEq, Prod.mk.injEq, and_true, and_false, and_self,
        Bool.true_eq_false, Bool.false_eq_true, if_true, if_false, List.mem_range] at * <;> omega
  · simp only [hlt, false_and, if_false, List.mem_range] at *
    omega

/-- The tags of the slots, place by place. -/
theorem Inv.tags (inv : c.Inv) :
    (∀ h ∈ c.pool.free ++ c.leaving, (c.pool.slot h).tag = (.free, false)) ∧
      (∀ h ∈ c.writing, (c.pool.slot h).tag = (.free, true)) ∧
      (∀ h ∈ c.pool.busy ++ c.arriving, (c.pool.slot h).tag = (.busy, false)) ∧
      (∀ h ∈ c.reading, (c.pool.slot h).tag = (.busy, true)) := by
  refine ⟨?_, ?_, ?_, ?_⟩
  · intro h hmem
    refine inv.tag_eq (a := (.free, false)) ?_
    simpa [Pool.place, resting, or_comm] using hmem
  · exact fun h hmem => inv.tag_eq (a := (.free, true)) hmem
  · intro h hmem
    refine inv.tag_eq (a := (.busy, false)) ?_
    simpa [Pool.place, resting, or_comm] using hmem
  · exact fun h hmem => inv.tag_eq (a := (.busy, true)) hmem

/-- The busy count is the number of slots whose state is busy. -/
theorem Inv.busyCount_eq (inv : c.Inv) :
    c.pool.busyCount = (c.pool.slots.toList.countP fun s => s.state == .busy : Nat) := by
  obtain ⟨hfree, hwriting, hbusy, hreading⟩ := inv.tags
  have hslots : c.pool.slots.toList = (List.range c.pool.depth).map c.pool.slot := by
    refine List.ext_getElem (by simp [Pool.depth]) fun h hlt _ => ?_
    simp only [Array.length_toList] at hlt
    simp [Pool.slot, Array.getD_eq_getD_getElem?, hlt]
  have hnone : ∀ hs : List Nat, (∀ h ∈ hs, (c.pool.slot h).tag.1 = .free) →
      hs.countP (fun h => (c.pool.slot h).state == .busy) = 0 := by
    intro hs hall
    rw [List.countP_eq_zero]
    intro h hmem
    have := hall h hmem
    simp_all [Slot.tag]
  have hall : ∀ hs : List Nat, (∀ h ∈ hs, (c.pool.slot h).tag.1 = .busy) →
      hs.countP (fun h => (c.pool.slot h).state == .busy) = hs.length := by
    intro hs hall
    rw [List.countP_eq_length]
    intro h hmem
    have := hall h hmem
    simp_all [Slot.tag]
  have hcount := inv.count_eq
  simp only [resting, List.length_append] at hcount
  rw [hslots, List.countP_map, ← inv.handles_perm.countP_eq, handles]
  simp only [Function.comp_def, List.countP_append]
  rw [← List.countP_append, hnone _ fun h hmem => by rw [hfree h hmem],
    hnone _ fun h hmem => by rw [hwriting h hmem], ← List.countP_append,
    hall _ fun h hmem => by rw [hbusy h hmem], hall _ fun h hmem => by rw [hreading h hmem],
    List.length_append]
  omega

/-- The dimensions of a pool stay as they are. -/
theorem depth_of_reach (hreach : Reach c c') : c'.pool.depth = c.pool.depth := by
  induction hreach with
  | refl => rfl
  | tail _ hmove ih =>
    rw [← ih]
    cases hmove with
    | publish i hok =>
      obtain ⟨h, -, -, -, -, -, rfl⟩ := Pool.publish_eq_ok hok
      exact Pool.depth_updateSlot _ _ _
    | release i hok =>
      obtain ⟨h, -, -, -, rfl⟩ := Pool.release_eq_ok hok
      exact Pool.depth_updateSlot _ _ _
    | holdFree | holdBusy => exact Pool.depth_updateSlot _ _ _
    | _ => rfl

/-- Where the chunks of a pool with `depth` of them are. -/
structure Tidy (depth : Nat) (c : Custody) : Prop where
  /-- Every handle is in one place, once: in a queue, on its way out of it, or checked
  out.  When no acquisition is under way, nothing is on its way. -/
  one_place : c.handles.Perm (List.range depth)
  free_tag : ∀ h ∈ c.pool.free ++ c.leaving, (c.pool.slot h).tag = (.free, false)
  writing_tag : ∀ h ∈ c.writing, (c.pool.slot h).tag = (.free, true)
  busy_tag : ∀ h ∈ c.pool.busy ++ c.arriving, (c.pool.slot h).tag = (.busy, false)
  reading_tag : ∀ h ∈ c.reading, (c.pool.slot h).tag = (.busy, true)
  /-- The busy count is the number of busy slots, so it stays in range. -/
  busyCount_eq : c.pool.busyCount = (c.pool.slots.toList.countP fun s => s.state == .busy : Nat)
  busyCount_range : 0 ≤ c.pool.busyCount ∧ c.pool.busyCount ≤ depth
  free_le : c.pool.free.length ≤ depth
  busy_le : c.pool.busy.length ≤ depth
  /-- A chunk that is published finds room in the busy queue, which ends with the
  pool's seal. -/
  publish_room : ∀ i p, c.pool.publish i = .ok p →
    c.pool.busy.length < depth ∧ c.pool.isSealed = false
  /-- A chunk that is released finds room in the free queue, which has no end. -/
  release_room : ∀ i p, c.pool.release i = .ok p → c.pool.free.length < depth

theorem Inv.tidy (inv : c.Inv) : c.Tidy c.pool.depth := by
  obtain ⟨hfree, hwriting, hbusy, hreading⟩ := inv.tags
  have hlength := inv.handles_perm.length_eq
  simp only [handles, List.length_append, List.length_range] at hlength
  have hcount := inv.count_eq
  simp only [resting, List.length_append] at hcount
  exact
    { one_place := inv.handles_perm
      free_tag := hfree
      writing_tag := hwriting
      busy_tag := hbusy
      reading_tag := hreading
      busyCount_eq := inv.busyCount_eq
      busyCount_range := by omega
      free_le := by omega
      busy_le := by omega
      publish_room := by
        intro i p hok
        have hpos := List.length_pos_of_mem (inv.mem_writing hok)
        obtain ⟨h, -, -, -, hsealed, -⟩ := Pool.publish_eq_ok hok
        exact ⟨by omega, hsealed⟩
      release_room := by
        intro i p hok
        have hpos := List.length_pos_of_mem (inv.mem_reading hok)
        omega }

/-- Whatever calls are made on a new pool, and however their steps mix, every chunk
stays in one place and no call finds a queue full or ended. -/
theorem tidy_of_reach (depth size : Int) (p : Pool) (hcreate : Pool.create depth size = .ok p)
    (c : Custody) (hreach : Reach { pool := p } c) : c.Tidy depth.toNat := by
  have inv := (create_inv hcreate).reach hreach
  have hdepth : c.pool.depth = depth.toNat := by
    rw [depth_of_reach hreach, (Pool.create_eq_ok hcreate).2.2]
    exact Array.size_replicate
  exact hdepth ▸ inv.tidy

/-- Two chunks: while one is on its way to a writer, the other has been published,
published again in vain, and acquired by a reader after the pool was sealed. -/
theorem tidy_of_reach_two_chunks :
    ∃ p c, Pool.create 2 1 = .ok p ∧ Reach { pool := p } c ∧
      c.leaving = [1] ∧ c.reading = [0] ∧ c.pool.isSealed = true ∧ c.Tidy 2 := by
  obtain ⟨p, hcreate, hp⟩ : ∃ p, Pool.create 2 1 = .ok p ∧
      p = { size := 1, slots := #[{ bytes := [0] }, { bytes := [0] }], free := [0, 1] } :=
    ⟨_, rfl, rfl⟩
  have acquired := reach_acquireFree (c := { pool := p }) rfl
    (Pool.ok_mem_freeOutcomes.mpr ⟨[1], by rw [hp], rfl⟩)
  have published := acquired.tail (.publish 0 (by rw [hp]; rfl))
  have refused := published.tail (.publishRefused 0 rfl)
  have received := (refused.tail (.receiveFree rfl)).tail .finish
  have fetched := received.trans (reach_acquireBusy rfl
    (Pool.ok_mem_busyOutcomes.mpr ⟨[], by rw [hp]; rfl, rfl⟩))
  exact ⟨p, _, hcreate, fetched, rfl, rfl, rfl, tidy_of_reach 2 1 p hcreate _ fetched⟩

end Custody

end Cosim

import Cosim.Proofs.Acts
import Cosim.Proofs.Budget
import Cosim.Proofs.Ledger

/-!
# Bookkeeping by looking on

Whoever looks at a pool before and after a step can tell from the tags of its slots
what call was made, and write it into the ledger: nobody has to report.  In the same way
one sees what has come into a snapshot.

* `Ledger.observed` are the entries that two looks at a pool give rise to.
* `Ledger.Balanced` says that the ledger accounts for the pool and that two lists name
  the chunks that are checked out.  Each call that succeeds shows as one entry.
* `Ledger.Attended.next` is what a step of the reader does, whatever state the pool and
  the signals are in: it has at most one chunk, and leaves alone those that others read.
* `Snapshot.gained` are the records that a snapshot has and did not have at the first look.
-/

namespace Cosim

/-- A list in which only one element has an image. -/
theorem filterMap_eq_singleton {α β : Type} {f : α → Option β} {x : α} {y : β} {xs : List α}
    (hnodup : xs.Nodup) (hmem : x ∈ xs) (hx : f x = some y)
    (hothers : ∀ z ∈ xs, z ≠ x → f z = none) : xs.filterMap f = [y] := by
  obtain ⟨front, back, rfl⟩ := List.append_of_mem hmem
  have hapart := List.nodup_middle.mp hnodup
  rw [List.nodup_cons, List.mem_append, not_or] at hapart
  have hfront : front.filterMap f = [] := List.filterMap_eq_nil_iff.mpr fun z hz =>
    hothers z (by simp [hz]) (by rintro rfl; exact hapart.1.1 hz)
  have hback : back.filterMap f = [] := List.filterMap_eq_nil_iff.mpr fun z hz =>
    hothers z (by simp [hz]) (by rintro rfl; exact hapart.1.2 hz)
  rw [List.filterMap_append, List.filterMap_cons_some hx, hfront, hback, List.nil_append]

/-- Short lists have only one order. -/
theorem eq_of_perm_of_length_le_one {α : Type} {xs ys : List α} (hperm : xs.Perm ys)
    (hone : ys.length ≤ 1) : xs = ys := by
  rcases ys with _ | ⟨y, _ | ⟨y', ys⟩⟩
  · exact hperm.eq_nil
  · exact List.perm_singleton.mp hperm
  · simp at hone

/-- The chunks with a tag. -/
def Pool.withTag (p : Pool) (tag : Tag) : List Nat :=
  (List.range p.depth).filter fun h => (p.slot h).tag = tag

/-- The chunks with a tag are those in the place that it stands for. -/
theorem Pool.Placed.withTag_perm {p : Pool} {writing reading : List Nat}
    (hp : p.Placed writing reading) (tag : Tag) :
    (p.withTag tag).Perm (p.place writing reading tag) := by
  refine (List.perm_ext_iff_of_nodup (List.nodup_range.filter _) (hp.nodup tag)).mpr fun h => ?_
  rw [hp.mem_iff, List.mem_filter, List.mem_range, decide_eq_true_iff]

namespace Ledger

variable {depth h : Nat} {l : Ledger} {p q : Pool} {a b : Tag} {kept reading : List Nat}

theorem fetched_append (entries more : List Entry) :
    fetched (entries ++ more) = fetched entries ++ fetched more :=
  List.filterMap_append

theorem released_append (entries more : List Entry) :
    released (entries ++ more) = released entries ++ released more :=
  List.filterMap_append

/-! ## Looking at a pool -/

/-- The entry that leaves a slot the way it is. -/
def Entry.ofSlot (h : Nat) (s : Slot) : Entry :=
  match s.tag with
  | (.free, true) => .lent h
  | (.busy, false) => .published h s.bytes
  | (.busy, true) => .fetched h
  | (.free, false) => .released h

/-- What has become of the chunks of a pool between two looks at it. -/
def observed (p q : Pool) : List Entry :=
  (List.range q.depth).filterMap fun h =>
    if (q.slot h).tag = (p.slot h).tag then none else some (.ofSlot h (q.slot h))

/-- The ledger after another look at the pool. -/
def observe (l : Ledger) (q : Pool) : Ledger where
  pool := q
  entries := l.entries ++ observed l.pool q

/-- Where all tags are as before, there is nothing to write. -/
theorem observed_of_tags (htags : ∀ g, (q.slot g).tag = (p.slot g).tag) : observed p q = [] := by
  simp [observed, htags]

@[simp] theorem observed_self (p : Pool) : observed p p = [] := observed_of_tags fun _ => rfl

theorem observe_self (l : Ledger) : l.observe l.pool = l := by
  simp [observe]

/-- A chunk that changes hands gives rise to one entry. -/
theorem observed_shift (hshift : Shift p q h a b) (hab : a ≠ b) :
    observed p q = [.ofSlot h (q.slot h)] := by
  have htag : (q.slot h).tag = b := by rw [hshift.tags, if_pos rfl]
  refine filterMap_eq_singleton List.nodup_range (x := h) ?_ ?_ fun g _ hg => ?_
  · rw [List.mem_range, hshift.depth_eq]
    exact hshift.lt_depth
  · rw [if_neg]
    rw [htag, hshift.tag_eq]
    exact hab.symm
  · rw [if_pos]
    rw [hshift.tags, if_neg hg]

/-! ## Calls and what they leave in the ledger -/

/-- A chunk that is checked out and free was lent out last. -/
theorem Inv.latest_eq_lent (inv : l.Inv depth) (hlt : h < depth)
    (htag : (l.pool.slot h).tag = (.free, true)) :
    latest Entry.chunk l.entries h = some (.lent h) := by
  have hlast : latestTag Entry.chunk Entry.tag l.entries h = (Entry.lent h).tag :=
    (inv.tag_eq h hlt).symm.trans htag
  refine (latestTag_eq_iff ?_ ?_ ?_).mp hlast
  · rfl
  · rfl
  · intro d hchunk hsame
    cases d <;> simp_all [Entry.tag, Entry.chunk]

/-- The ledger accounts for the pool, and the chunks that are checked out are these. -/
structure Balanced (depth : Nat) (l : Ledger) (kept reading : List Nat) : Prop where
  inv : l.Inv depth
  placed : l.pool.Placed kept reading
  /-- What is published are whole chunks. -/
  whole : ∀ e ∈ published l.entries, e.2.length = l.pool.size

/-- Those who read do not notice what has happened to the pool. -/
structure Spares (l : Ledger) (q : Pool) (reading : List Nat) : Prop where
  size_eq : q.size = l.pool.size
  bytes : ∀ h ∈ reading, (q.slot h).bytes = (l.pool.slot h).bytes
  fetched : fetched (observed l.pool q) = []
  released : released (observed l.pool q) = []

theorem Spares.refl (l : Ledger) (reading : List Nat) : l.Spares l.pool reading := by
  exact ⟨rfl, fun _ _ => rfl, by rw [observed_self]; rfl, by rw [observed_self]; rfl⟩

namespace Balanced

theorem lend (hb : l.Balanced depth kept reading) (hok : .ok (h, q) ∈ l.pool.freeOutcomes) :
    (l.observe q).Balanced depth (kept ++ [h]) reading ∧ l.Spares q reading := by
  obtain ⟨rest, hfree, hpool⟩ := Pool.ok_mem_freeOutcomes.mp hok
  have hplace : h ∈ l.pool.place kept reading (.free, false) := by simp [Pool.place, hfree]
  have hshift : Shift l.pool q h (.free, false) (.free, true) :=
    .hold (hb.placed.lt_depth hplace) (hb.placed.tag_eq hplace) (by rw [hpool]; rfl)
  have hobserved : observed l.pool q = [.lent h] := by
    rw [observed_shift hshift (by decide), Entry.ofSlot, hshift.tags, if_pos rfl]
  obtain ⟨hplaced, hframe, -⟩ := hb.placed.acquireFree hfree hpool
  refine ⟨⟨?_, hplaced, ?_⟩, hframe.size_eq, fun g _ => hshift.bytes g, ?_, ?_⟩
  · rw [observe, hobserved]
    exact hb.inv.lend hok
  · simpa [observe, hobserved, published, hframe.size_eq] using hb.whole
  · rw [hobserved]; rfl
  · rw [hobserved]; rfl

theorem publish (hb : l.Balanced depth kept reading) (hmem : h ∈ kept)
    (hok : l.pool.publish h = .ok q) :
    (l.observe q).Balanced depth (kept.erase h) reading ∧ l.Spares q reading := by
  have hshift := Shift.publish hok
  have hobserved : observed l.pool q = [.published h (l.pool.slot h).bytes] := by
    rw [observed_shift hshift (by decide), Entry.ofSlot, hshift.tags, if_pos rfl]
    simp [hshift.bytes]
  obtain ⟨-, -, -, -, hsealed, hclosed, -⟩ := Pool.publish_eq_ok hok
  obtain ⟨q', hok', hplaced, hframe, -⟩ := hb.placed.publish hmem ⟨hsealed, hclosed⟩
  obtain rfl := Except.ok.inj (hok.symm.trans hok')
  refine ⟨⟨?_, hplaced, ?_⟩, hframe.size_eq, fun g _ => hshift.bytes g, ?_, ?_⟩
  · rw [observe, hobserved]
    exact hb.inv.publish hok
  · have hlength : (l.pool.slot h).bytes.length = l.pool.size :=
      hb.placed.length_eq h (hb.placed.lt_depth (a := (.free, true)) hmem)
    intro e he
    simp only [observe, hobserved, published, List.filterMap_append, List.mem_append] at he
    rw [show (l.observe q).pool.size = l.pool.size from hframe.size_eq]
    rcases he with hold | hnew
    · exact hb.whole e hold
    · obtain rfl : e = (h, (l.pool.slot h).bytes) := by simpa using hnew
      exact hlength
  · rw [hobserved]; rfl
  · rw [hobserved]; rfl

theorem fetch (hb : l.Balanced depth kept reading) (hok : .ok (h, q) ∈ l.pool.busyOutcomes) :
    observed l.pool q = [.fetched h] ∧ (l.observe q).Balanced depth kept (reading ++ [h]) ∧
      q.size = l.pool.size ∧
      (published l.entries)[(fetched l.entries).length]? = some (h, (q.slot h).bytes) := by
  obtain ⟨rest, hbusy, hpool⟩ := Pool.ok_mem_busyOutcomes.mp hok
  have hplace : h ∈ l.pool.place kept reading (.busy, false) := by simp [Pool.place, hbusy]
  have hshift : Shift l.pool q h (.busy, false) (.busy, true) :=
    .hold (hb.placed.lt_depth hplace) (hb.placed.tag_eq hplace) (by rw [hpool]; rfl)
  have hobserved : observed l.pool q = [.fetched h] := by
    rw [observed_shift hshift (by decide), Entry.ofSlot, hshift.tags, if_pos rfl]
  obtain ⟨hplaced, hframe, -⟩ := hb.placed.acquireBusy hbusy hpool
  have hinv := hb.inv.fetch hok
  refine ⟨hobserved, ⟨?_, hplaced, ?_⟩, hframe.size_eq, ?_⟩
  · rw [observe, hobserved]
    exact hinv
  · simpa [observe, hobserved, published, hframe.size_eq] using hb.whole
  · obtain ⟨-, -, hbytes⟩ := hinv.reading l.entries h [] rfl (by simp)
    simpa [published] using hbytes

theorem release (hb : l.Balanced depth kept reading) (hmem : h ∈ reading) :
    ∃ q, l.pool.release h = .ok q ∧ observed l.pool q = [.released h] ∧
      (l.observe q).Balanced depth kept (reading.erase h) ∧ q.size = l.pool.size := by
  obtain ⟨q, hok, hplaced, hframe, -⟩ := hb.placed.release hmem
  have hshift := Shift.release hok
  have hobserved : observed l.pool q = [.released h] := by
    rw [observed_shift hshift (by decide), Entry.ofSlot, hshift.tags, if_pos rfl]
    simp
  refine ⟨q, hok, hobserved, ⟨?_, hplaced, ?_⟩, hframe.size_eq⟩
  · rw [observe, hobserved]
    exact hb.inv.release hok
  · simpa [observe, hobserved, published, hframe.size_eq] using hb.whole

/-- Bytes are written only to a chunk that was acquired for that, so nobody reads it. -/
theorem write (hb : l.Balanced depth kept reading) (hmem : h ∈ kept) (offset : Nat)
    (data : List UInt8) (hfit : offset + data.length ≤ l.pool.size) :
    (l.observe (l.pool.write h offset data)).Balanced depth kept reading ∧
      l.Spares (l.pool.write h offset data) reading := by
  have hplace : h ∈ l.pool.place kept reading (.free, true) := hmem
  have htag := hb.placed.tag_eq hplace
  obtain ⟨hplaced, hframe, -, hothers, -⟩ := hb.placed.write hmem hfit
  have htags : ∀ g, ((l.pool.write h offset data).slot g).tag = (l.pool.slot g).tag := by
    intro g
    by_cases hg : g = h
    · have hplace' : h ∈ (l.pool.write h offset data).place kept reading (.free, true) := hmem
      rw [hg, hplaced.tag_eq hplace', htag]
    · rw [hothers g hg]
  have hlent := hb.inv.latest_eq_lent (hb.inv.depth_eq ▸ hb.placed.lt_depth hplace) htag
  have hobserved := observed_of_tags htags
  refine ⟨⟨?_, hplaced, ?_⟩, hframe.size_eq, fun g hg => ?_, ?_, ?_⟩
  · simpa [observe, hobserved] using hb.inv.write hlent hfit
  · simpa [observe, hobserved, hframe.size_eq] using hb.whole
  · have hne : g ≠ h := by
      rintro rfl
      exact hb.placed.not_mem hplace (b := (.busy, true)) (by decide) hg
    rw [hothers g hne]
  · rw [hobserved]; rfl
  · rw [hobserved]; rfl

/-- Ending the pool, or publishing, does not show. -/
theorem reflag (hb : l.Balanced depth kept reading) (isSealed isClosed : Bool) :
    (l.observe { l.pool with isSealed, isClosed }).Balanced depth kept reading ∧
      l.Spares { l.pool with isSealed, isClosed } reading := by
  have hobserved : observed l.pool { l.pool with isSealed, isClosed } = [] :=
    observed_of_tags fun _ => rfl
  have hp := hb.placed
  refine ⟨⟨?_, ⟨hp.nodup, hp.mem_iff, hp.count_eq, hp.length_eq⟩, ?_⟩, rfl, fun _ _ => rfl, ?_, ?_⟩
  · simpa [observe, hobserved] using hb.inv.reflag isSealed isClosed
  · simpa [observe, hobserved] using hb.whole
  · rw [hobserved]; rfl
  · rw [hobserved]; rfl

end Balanced

/-! ## The reader and whoever reads -/

/-- The reader has the chunk that it fills.  Once it has stopped, it may have kept it. -/
def Attended (depth : Nat) (l : Ledger) (r : Reader) (reading : List Nat) : Prop :=
  ∃ kept, l.Balanced depth kept reading ∧ kept.length ≤ 1 ∧
    (r.phase.isOver = false → kept = r.phase.hand)

variable {r r' : Reader} {signals : Signals} {source source' : Source}

/-- A step that leaves the pool alone, and that ends the work or keeps the chunk. -/
theorem Attended.goto (ha : l.Attended depth r reading)
    (hphase : r'.phase.isOver = false →
      r.phase.isOver = false ∧ r'.phase.hand = r.phase.hand) :
    (l.observe l.pool).Attended depth r' reading ∧ l.Spares l.pool reading := by
  obtain ⟨kept, hb, hone, hkept⟩ := ha
  rw [observe_self]
  refine ⟨⟨kept, hb, hone, fun hover => ?_⟩, .refl l reading⟩
  obtain ⟨hover', hhand⟩ := hphase hover
  rw [hkept hover', hhand]

theorem Attended.fetch (ha : l.Attended depth r []) (hok : .ok (h, q) ∈ l.pool.busyOutcomes) :
    observed l.pool q = [.fetched h] ∧ (l.observe q).Attended depth r [h] ∧
      q.size = l.pool.size ∧
      (published l.entries)[(fetched l.entries).length]? = some (h, (q.slot h).bytes) := by
  obtain ⟨kept, hb, hone, hkept⟩ := ha
  obtain ⟨hobserved, hb', hsize, hpublished⟩ := hb.fetch hok
  exact ⟨hobserved, ⟨kept, hb', hone, hkept⟩, hsize, hpublished⟩

theorem Attended.release (ha : l.Attended depth r [h]) :
    ∃ q, l.pool.release h = .ok q ∧ observed l.pool q = [.released h] ∧
      (l.observe q).Attended depth r [] ∧ q.size = l.pool.size := by
  obtain ⟨kept, hb, hone, hkept⟩ := ha
  obtain ⟨q, hok, hobserved, hb', hsize⟩ := hb.release (List.mem_singleton.mpr rfl)
  rw [List.erase_cons_head] at hb'
  exact ⟨q, hok, hobserved, ⟨kept, hb', hone, hkept⟩, hsize⟩

theorem Attended.reflag (ha : l.Attended depth r reading) (isSealed isClosed : Bool) :
    (l.observe { l.pool with isSealed, isClosed }).Attended depth r reading ∧
      l.Spares { l.pool with isSealed, isClosed } reading := by
  obtain ⟨kept, hb, hone, hkept⟩ := ha
  obtain ⟨hb', hspares⟩ := hb.reflag isSealed isClosed
  exact ⟨⟨kept, hb', hone, hkept⟩, hspares⟩

/-- Whatever the signals and however the pool has ended, the reader has at most one chunk
after a step, and those who read notice nothing. -/
theorem Attended.next (ha : l.Attended depth r reading)
    (hmem : (r', source', q) ∈ r.next signals source l.pool) :
    (l.observe q).Attended depth r' reading ∧ l.Spares q reading := by
  cases hphase : r.phase with
  | idle => simp [Reader.next, hphase] at hmem
  | returned failure => simp [Reader.next, hphase] at hmem
  | start =>
    simp only [Reader.next, hphase, List.mem_singleton, Prod.mk.injEq] at hmem
    obtain ⟨rfl, -, rfl⟩ := hmem
    refine ha.goto ?_
    cases signals.running <;> simp [Reader.goto, hphase, Reader.Phase.isOver, Reader.Phase.hand]
  | enter =>
    simp only [Reader.next, hphase, List.mem_singleton, Prod.mk.injEq] at hmem
    obtain ⟨rfl, -, rfl⟩ := hmem
    refine ha.goto ?_
    cases l.pool.isClosed <;> simp [Reader.goto, hphase, Reader.Phase.isOver, Reader.Phase.hand]
  | acquire =>
    simp only [Reader.next, hphase, List.mem_append, List.mem_map] at hmem
    rcases hmem with ⟨outcome, houtcome, heq⟩ | hcancelled
    · cases outcome with
      | error e =>
        simp only [Prod.mk.injEq] at heq
        obtain ⟨rfl, -, rfl⟩ := heq
        exact ha.goto (by simp [Reader.goto, Reader.Phase.isOver])
      | ok acquired =>
        simp only [Prod.mk.injEq] at heq
        obtain ⟨rfl, -, rfl⟩ := heq
        obtain ⟨kept, hb, -, hkept⟩ := ha
        obtain rfl : kept = [] := by
          simpa [hphase, Reader.Phase.isOver, Reader.Phase.hand] using hkept
        obtain ⟨hb', hspares⟩ := hb.lend houtcome
        exact ⟨⟨[acquired.1], hb', by simp, fun _ => rfl⟩, hspares⟩
    · split at hcancelled
      · simp only [List.mem_singleton, Prod.mk.injEq] at hcancelled
        obtain ⟨rfl, -, rfl⟩ := hcancelled
        exact ha.goto (by simp [Reader.goto, Reader.Phase.isOver])
      · simp at hcancelled
  | fill h got =>
    simp only [Reader.next, hphase] at hmem
    split at hmem
    · simp only [List.mem_singleton, Prod.mk.injEq] at hmem
      obtain ⟨rfl, -, rfl⟩ := hmem
      exact ha.goto (by simp [Reader.goto, hphase, Reader.Phase.isOver, Reader.Phase.hand])
    · rename_i hroom
      split at hmem
      · simp at hmem
      · rename_i data source'' hread
        simp only [List.mem_singleton, Prod.mk.injEq] at hmem
        obtain ⟨rfl, -, rfl⟩ := hmem
        obtain ⟨hlength, -⟩ := Source.length_read hread (by omega)
        obtain ⟨kept, hb, hone, hkept⟩ := ha
        obtain rfl : kept = [h] := by
          simpa [hphase, Reader.Phase.isOver, Reader.Phase.hand] using hkept
        obtain ⟨hb', hspares⟩ := hb.write (List.mem_singleton.mpr rfl) got data (by omega)
        exact ⟨⟨[h], hb', hone, fun _ => rfl⟩, hspares⟩
      · simp only [List.mem_singleton, Prod.mk.injEq] at hmem
        obtain ⟨rfl, -, rfl⟩ := hmem
        exact ha.goto (by simp [Reader.goto, Reader.Phase.isOver])
  | stopped got how =>
    simp only [Reader.next, hphase, List.mem_singleton, Prod.mk.injEq] at hmem
    obtain ⟨rfl, -, rfl⟩ := hmem
    exact ha.goto (by simp [Reader.goto, Reader.Phase.isOver])
  | publish h =>
    simp only [Reader.next, hphase] at hmem
    split at hmem
    · rename_i pool hok
      simp only [List.mem_singleton, Prod.mk.injEq] at hmem
      obtain ⟨rfl, -, rfl⟩ := hmem
      obtain ⟨kept, hb, -, hkept⟩ := ha
      obtain rfl : kept = [h] := by
        simpa [hphase, Reader.Phase.isOver, Reader.Phase.hand] using hkept
      obtain ⟨hb', hspares⟩ := hb.publish (List.mem_singleton.mpr rfl) hok
      rw [List.erase_cons_head] at hb'
      exact ⟨⟨[], hb', by simp, fun _ => rfl⟩, hspares⟩
    -- A chunk that cannot be published any more stays with the reader.
    · simp only [List.mem_singleton, Prod.mk.injEq] at hmem
      obtain ⟨rfl, -, rfl⟩ := hmem
      exact ha.goto (by simp [Reader.goto, Reader.Phase.isOver])
    · simp only [List.mem_singleton, Prod.mk.injEq] at hmem
      obtain ⟨rfl, -, rfl⟩ := hmem
      exact ha.goto (by simp [Reader.goto, Reader.Phase.isOver])
  | count =>
    simp only [Reader.next, hphase, List.mem_singleton, Prod.mk.injEq] at hmem
    obtain ⟨rfl, -, rfl⟩ := hmem
    exact ha.goto (by simp [hphase, Reader.Phase.isOver, Reader.Phase.hand])

end Ledger

/-! ## What comes into a snapshot -/

/-- The records that a snapshot has and did not have before. -/
def Snapshot.gained (s s' : Snapshot) : List Stream.Record :=
  (List.range s'.cores).filterMap fun core =>
    if (s.slots.getD core none).isSome then none
    else (s'.slots.getD core none).map fun state => (core, state)

namespace Snapshot

variable {s s' : Snapshot} {core : Nat} {state : CoreState}

theorem gained_of_slots (hslots : s'.slots = s.slots) : s.gained s' = [] := by
  refine List.filterMap_eq_nil_iff.mpr fun core _ => ?_
  rw [hslots]
  cases s.slots.getD core none <;> simp

theorem gained_reset (s : Snapshot) : s.gained s.reset = [] := by
  refine List.filterMap_eq_nil_iff.mpr fun core _ => ?_
  have hnone : s.reset.slots.getD core none = none := by
    rw [reset, Array.getD_eq_getD_getElem?, Array.getElem?_replicate]
    split <;> rfl
  simp [hnone]

/-- Filing a record brings it in, and nothing else. -/
theorem gained_put {t : Snapshot} (hput : s.put core state = .ok t) (hslots : s'.slots = t.slots) :
    s.gained s' = [(core, state)] := by
  unfold put at hput
  split at hput
  · cases hput
  rename_i hrange
  split at hput
  · cases hput
  rename_i hhas
  obtain rfl := Except.ok.inj hput
  have hlt : core < s.slots.size := by
    simp only [cores] at hrange
    omega
  have hempty : (s.slots.getD core none).isSome = false := by
    simpa [has] using hhas
  refine filterMap_eq_singleton List.nodup_range (x := core) ?_ ?_ fun other _ hother => ?_
  · simpa [cores, hslots] using hlt
  · have hfiled : s'.slots.getD core none = some state := by
      simp [hslots, Array.getD_eq_getD_getElem?, hlt]
    rw [hempty, hfiled]
    rfl
  · have hsame : s'.slots.getD other none = s.slots.getD other none := by
      simp [hslots, Array.getD_eq_getD_getElem?, Ne.symm hother]
    rw [hsame]
    cases s.slots.getD other none <;> simp

end Snapshot

namespace Exchange

variable {x x' x'' : Exchange} {t t' : Ticket}

/-- A snapshot is replaced, or none is. -/
theorem snapshot_update_cases (x : Exchange) (s : Snapshot) (t t' : Ticket) :
    (x.update t' s).snapshot t = x.snapshot t ∨ t = t' ∧ (x.update t' s).snapshot t = s := by
  by_cases ht : t = t'
  · subst ht
    by_cases hlt : t < x.snapshots.size
    · exact .inr ⟨rfl, snapshot_update s hlt⟩
    · rw [update_of_le x s (Nat.le_of_not_lt hlt)]
      exact .inl rfl
  · left
    simp [snapshot, update, Array.getD_eq_getD_getElem?, Ne.symm ht]

/-- Whichever snapshot is emptied, none gains a record. -/
theorem gained_reset (x : Exchange) (t t' : Ticket) :
    (x.snapshot t).gained ((x.reset t').snapshot t) = [] := by
  rcases x.snapshot_update_cases (x.snapshot t').reset t t' with hsame | ⟨rfl, hreset⟩
  · exact Snapshot.gained_of_slots (congrArg Snapshot.slots hsame)
  · rw [reset, hreset, Snapshot.gained_reset]

theorem put_error {core : Int} {state : CoreState} {e : Error}
    (hput : x.put t core state = .error e) : (x.snapshot t).put core state = .error e := by
  cases hs : (x.snapshot t).put core state with
  | error e' => simpa [put, hs, bind, Except.bind] using hput
  | ok s => simp [put, hs, bind, Except.bind, pure, Except.pure] at hput

/-- A snapshot that takes a record gains it, and numbering it adds nothing. -/
theorem gained_put {core : Nat} {state : CoreState} (hput : x.put t core state = .ok x')
    (hslots : (x''.snapshot t).slots = (x'.snapshot t).slots) :
    (x.snapshot t).gained (x''.snapshot t) = [(core, state)] := by
  obtain ⟨s, hs, hupdate⟩ := bind_eq_ok hput
  obtain rfl := Except.ok.inj hupdate
  have hlt : t < x.snapshots.size := by
    by_contra hle
    simp [snapshot, Array.getD_eq_getD_getElem?, hle, Snapshot.put, Snapshot.cores] at hs
  rw [snapshot_update s hlt] at hslots
  exact Snapshot.gained_put hs hslots

theorem slots_stamp (hstamp : x.stamp t = .ok x') :
    (x'.snapshot t).slots = (x.snapshot t).slots := by
  unfold stamp at hstamp
  dsimp only at hstamp
  split at hstamp
  · obtain rfl := Except.ok.inj hstamp
    rcases x.snapshot_update_cases { x.snapshot t with seq := x.seq + 1 } t t with hsame | ⟨-, hset⟩
    · exact congrArg Snapshot.slots hsame
    · have hslots := congrArg Snapshot.slots hset
      exact hslots
  · cases hstamp

end Exchange

/-- The records that have come into the snapshot that the assembler fills. -/
def Device.gained (d d' : Device) : List Stream.Record :=
  d.assembler.current.elim [] fun t => (d.exchange.snapshot t).gained (d'.exchange.snapshot t)

theorem Device.gained_of_snapshots {d d' : Device}
    (hsnapshots : d'.exchange.snapshots = d.exchange.snapshots) : d.gained d' = [] := by
  unfold gained
  cases d.assembler.current with
  | none => rfl
  | some t =>
    refine Snapshot.gained_of_slots ?_
    simp only [Exchange.snapshot, hsnapshots]

end Cosim

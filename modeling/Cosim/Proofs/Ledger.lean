import Cosim.Proofs.Pool
import Mathlib.Data.List.Infix
import Mathlib.Logic.Relation

/-!
# The ledger of a pool

A pool and a ledger of what the calls on it came to, in order.  The ledger is all
that is needed to say which chunk comes next: chunks leave both queues in the order
in which they entered them, and a chunk holds what it held when it was published
until it is released, however often its slot has been used.

* `Ledger.latest` and `Ledger.latestTag` say what a history tells about a chunk, whatever
  its entries look like.
* `Ledger.Move` is one call.  Calls that are refused are included; bytes are written
  only to a chunk that the ledger says was lent out last.
* `Ledger.Inv` ties the ledger to the pool: the tag of a slot follows from the last
  entry about its chunk, and each queue holds what has entered it and not yet left.
* `Ledger.Dated` says that the two ends of the pool are in the ledger.
* `Ledger.InOrder` collects what follows for those who acquire chunks.
* `Ledger.inOrder_of_reach` is the main statement.
-/

namespace Cosim

/-- What a call on a pool came to. -/
inductive Ledger.Entry where
  /-- A chunk was handed out to be written. -/
  | lent (h : Nat)
  /-- A chunk was published with these bytes. -/
  | published (h : Nat) (bytes : List UInt8)
  /-- A chunk was handed out to be read. -/
  | fetched (h : Nat)
  /-- A chunk was given back. -/
  | released (h : Nat)
  /-- Acquiring a chunk to read failed. -/
  | refused (failure : Error)
  /-- The pool was sealed: nothing more will be published. -/
  | sealed
  /-- The pool was closed. -/
  | closed
deriving DecidableEq

/-- The chunk that an entry is about. -/
def Ledger.Entry.chunk : Entry → Option Nat
  | .lent h | .published h _ | .fetched h | .released h => some h
  | .refused _ | .sealed | .closed => none

/-- How an entry leaves the slot of its chunk. -/
def Ledger.Entry.tag : Entry → Tag
  | .lent _ => (.free, true)
  | .published _ _ => (.busy, false)
  | .fetched _ => (.busy, true)
  | .released _ | .refused _ | .sealed | .closed => (.free, false)

/-- A pool and what the calls on it came to. -/
structure Ledger where
  pool : Pool
  entries : List Ledger.Entry := []

/-- The handles of a pool give access to its chunks. -/
theorem Pool.bytes_of_lt {p : Pool} {h : Nat} (hlt : h < p.depth) :
    p.bytes h = .ok (p.slot h).bytes := by
  have hindex : Fault.checkIndex h p.depth = .ok h := Fault.checkIndex_of_lt (by omega)
  simp [Pool.bytes, hindex, bind, Except.bind, pure, Except.pure]

namespace Ledger

/-! ## Histories of a pool -/

section History

variable {α : Type} {chunk : α → Option Nat} {tag : α → Tag} {entries : List α} {e : α} {h : Nat}

/-- The last entry of a history that is about a chunk. -/
def latest (chunk : α → Option Nat) (entries : List α) (h : Nat) : Option α :=
  (entries.filter fun e => chunk e == some h).getLast?

/-- The tag that a chunk should have; a chunk without entries is free. -/
def latestTag (chunk : α → Option Nat) (tag : α → Tag) (entries : List α) (h : Nat) : Tag :=
  ((latest chunk entries h).map tag).getD (.free, false)

theorem latest_append (entries later : List α) (h : Nat) :
    latest chunk (entries ++ later) h = (latest chunk later h).or (latest chunk entries h) := by
  simp only [latest, List.filter_append, List.getLast?_append]

theorem latest_concat (entries : List α) (e : α) (h : Nat) :
    latest chunk (entries ++ [e]) h =
      if chunk e = some h then some e else latest chunk entries h := by
  rw [latest_append]
  by_cases hchunk : chunk e = some h <;> simp [latest, hchunk]

theorem latestTag_concat (entries : List α) (e : α) (h : Nat) :
    latestTag chunk tag (entries ++ [e]) h =
      if chunk e = some h then tag e else latestTag chunk tag entries h := by
  rw [latestTag, latest_concat]
  split <;> rfl

theorem mem_of_latest (hlatest : latest chunk entries h = some e) :
    e ∈ entries ∧ chunk e = some h := by
  simpa using List.mem_of_getLast? hlatest

/-- Where the tag of an entry that checks a chunk out is told from the tags of the others, it
tells that this entry is the last. -/
theorem latestTag_eq_iff (hheld : (tag e).2 = true) (hchunk : chunk e = some h)
    (htold : ∀ d, chunk d = chunk e → tag d = tag e → d = e) :
    latestTag chunk tag entries h = tag e ↔ latest chunk entries h = some e := by
  unfold latestTag
  cases hlatest : latest chunk entries h with
  | none =>
    refine iff_of_false ?_ (by simp)
    intro htag
    rw [← htag] at hheld
    cases hheld
  | some d =>
    have hsame := (mem_of_latest hlatest).2.trans hchunk.symm
    rw [Option.map_some, Option.getD_some, Option.some.injEq]
    exact ⟨htold d hsame, fun heq => heq ▸ rfl⟩

end History

/-! ## Reading the ledger -/

/-- The chunks handed out to be written. -/
def lent (entries : List Entry) : List Nat :=
  entries.filterMap fun | .lent h => some h | _ => none

/-- The chunks published, each with its bytes at that time. -/
def published (entries : List Entry) : List (Nat × List UInt8) :=
  entries.filterMap fun | .published h bytes => some (h, bytes) | _ => none

/-- The chunks handed out to be read. -/
def fetched (entries : List Entry) : List Nat :=
  entries.filterMap fun | .fetched h => some h | _ => none

/-- The chunks given back. -/
def released (entries : List Entry) : List Nat :=
  entries.filterMap fun | .released h => some h | _ => none

/-- What the calls that acquire a chunk to read returned. -/
def answers (entries : List Entry) : List (Except Error Nat) :=
  entries.filterMap fun | .fetched h => some (.ok h) | .refused e => some (.error e) | _ => none

/-- What has been published stays in its place. -/
theorem published_append {entries more : List Entry} {k : Nat} {x : Nat × List UInt8}
    (hk : (published entries)[k]? = some x) : (published (entries ++ more))[k]? = some x := by
  simp only [published, List.filterMap_append] at hk ⊢
  rw [List.getElem?_append_left (List.getElem?_eq_some_iff.mp hk).1]
  exact hk

/-! ## Calls -/

/-- One call on the pool. -/
inductive Move : Ledger → Ledger → Prop where
  | lend {l h p} (hok : .ok (h, p) ∈ l.pool.freeOutcomes) :
      Move l { pool := p, entries := l.entries ++ [.lent h] }
  | lendRefused {l e} (herror : .error e ∈ l.pool.freeOutcomes) : Move l l
  | write {l} (h offset : Nat) (data : List UInt8)
      (hlent : latest Entry.chunk l.entries h = some (.lent h))
      (hfit : offset + data.length ≤ l.pool.size) :
      Move l { l with pool := l.pool.write h offset data }
  | publish {l p} (i : Int) (hok : l.pool.publish i = .ok p) :
      Move l
        { pool := p
          entries := l.entries ++ [.published i.toNat (l.pool.slot i.toNat).bytes] }
  | publishRefused {l e} (i : Int) (herror : l.pool.publish i = .error e) : Move l l
  | fetch {l h p} (hok : .ok (h, p) ∈ l.pool.busyOutcomes) :
      Move l { pool := p, entries := l.entries ++ [.fetched h] }
  | fetchRefused {l e} (herror : .error e ∈ l.pool.busyOutcomes) :
      Move l { l with entries := l.entries ++ [.refused e] }
  | release {l p} (i : Int) (hok : l.pool.release i = .ok p) :
      Move l { pool := p, entries := l.entries ++ [.released i.toNat] }
  | releaseRefused {l e} (i : Int) (herror : l.pool.release i = .error e) : Move l l
  | finish {l} : Move l { pool := l.pool.finish, entries := l.entries ++ [.sealed] }
  | close {l} : Move l { pool := l.pool.close, entries := l.entries ++ [.closed] }

/-- Any number of calls. -/
abbrev Reach : Ledger → Ledger → Prop := Relation.ReflTransGen Move

/-! ## The invariant -/

/-- The chunks that wait to be read, with their bytes. -/
def waiting (p : Pool) : List (Nat × List UInt8) := p.busy.map fun h => (h, (p.slot h).bytes)

/-- The ledger accounts for the pool. -/
structure Inv (depth : Nat) (l : Ledger) : Prop where
  placed : ∃ writing reading, l.pool.Placed writing reading
  depth_eq : l.pool.depth = depth
  tag_eq : ∀ h < depth, (l.pool.slot h).tag = latestTag Entry.chunk Entry.tag l.entries h
  known : ∀ h, latest Entry.chunk l.entries h ≠ none → h < depth
  lent_eq : lent l.entries ++ l.pool.free = List.range depth ++ released l.entries
  published_eq : ∃ passed, published l.entries = passed ++ waiting l.pool ∧
    passed.map Prod.fst = fetched l.entries
  /-- A chunk that is being read holds what it was published with. -/
  reading : ∀ earlier h later, l.entries = earlier ++ .fetched h :: later → .released h ∉ later →
    h < depth ∧ (l.pool.slot h).tag = (.busy, true) ∧
      (published l.entries)[(fetched earlier).length]? = some (h, (l.pool.slot h).bytes)

variable {depth : Nat} {l l' : Ledger} {h : Nat} {p q : Pool} {e : Entry}

/-- A chunk that is being read stays as it is until an entry says it was released. -/
theorem Inv.reading_concat (inv : l.Inv depth)
    (hkept : ∀ g, (l.pool.slot g).tag = (.busy, true) → e ≠ .released g →
      (q.slot g).tag = (.busy, true) ∧ (q.slot g).bytes = (l.pool.slot g).bytes)
    (hnew : ∀ g, e = .fetched g → g < depth ∧ (q.slot g).tag = (.busy, true) ∧
      (published l.entries)[(fetched l.entries).length]? = some (g, (q.slot g).bytes)) :
    ∀ earlier g later, l.entries ++ [e] = earlier ++ .fetched g :: later → .released g ∉ later →
      g < depth ∧ (q.slot g).tag = (.busy, true) ∧
        (published (l.entries ++ [e]))[(fetched earlier).length]? = some (g, (q.slot g).bytes) := by
  intro earlier g later heq hopen
  rcases List.eq_nil_or_concat later with rfl | ⟨later', e', rfl⟩
  · obtain ⟨rfl, he⟩ := List.append_inj' heq rfl
    obtain ⟨hlt, htag, hbytes⟩ := hnew g (List.singleton_inj.mp he)
    exact ⟨hlt, htag, published_append hbytes⟩
  · rw [List.concat_eq_append, ← List.cons_append, ← List.append_assoc] at heq
    obtain ⟨hentries, he⟩ := List.append_inj' heq rfl
    obtain rfl := List.singleton_inj.mp he
    rw [List.concat_eq_append, List.mem_append, not_or, List.mem_singleton] at hopen
    obtain ⟨hlt, htag, hbytes⟩ := inv.reading earlier g later' hentries hopen.1
    obtain ⟨htag', hsame⟩ := hkept g htag (Ne.symm hopen.2)
    exact ⟨hlt, htag', hsame ▸ published_append hbytes⟩

/-- A chunk changes hands: one slot is tagged anew, and all bytes stay. -/
structure Shift (p q : Pool) (h : Nat) (a b : Tag) : Prop where
  lt_depth : h < p.depth
  depth_eq : q.depth = p.depth
  tag_eq : (p.slot h).tag = a
  tags : ∀ g, (q.slot g).tag = if g = h then b else (p.slot g).tag
  bytes : ∀ g, (q.slot g).bytes = (p.slot g).bytes

theorem Shift.of_updateSlot {a b : Tag} {f : Slot → Slot} (hlt : h < p.depth)
    (htag : (p.slot h).tag = a) (hslots : q.slots = (p.updateSlot h f).slots)
    (hf : (f (p.slot h)).tag = b) (hbytes : ∀ s, (f s).bytes = s.bytes) : Shift p q h a b := by
  have hslot : ∀ g, q.slot g = (p.updateSlot h f).slot g := by
    intro g
    simp only [Pool.slot, hslots]
  refine ⟨hlt, ?_, htag, ?_, ?_⟩
  · rw [← Pool.depth_updateSlot p h f]
    simp only [Pool.depth, hslots]
  · intro g
    rw [hslot]
    by_cases hgh : g = h
    · rw [hgh, Pool.slot_updateSlot f hlt, hf, if_pos rfl]
    · rw [Pool.slot_updateSlot_ne p f hgh, if_neg hgh]
  · intro g
    rw [hslot]
    exact Pool.Placed.bytes_update hlt hbytes g

/-- A history that accounts for the tags still does so with the entry about the chunk that
changed hands. -/
theorem Shift.tags_concat {α : Type} {chunk : α → Option Nat} {tag : α → Tag} {entries : List α}
    {e : α} {a : Tag} (hshift : Shift p q h a (tag e)) (hchunk : chunk e = some h)
    (htags : ∀ g < depth, (p.slot g).tag = latestTag chunk tag entries g) :
    ∀ g < depth, (q.slot g).tag = latestTag chunk tag (entries ++ [e]) g := by
  intro g hg
  rw [hshift.tags, latestTag_concat, hchunk]
  by_cases hgh : g = h
  · simp [hgh]
  · rw [if_neg hgh, if_neg (by simpa using Ne.symm hgh), htags g hg]

/-- Acquiring a chunk checks it out and leaves its state alone. -/
theorem Shift.hold {state : ChunkState} (hlt : h < p.depth) (htag : (p.slot h).tag = (state, false))
    (hslots : q.slots = (p.updateSlot h fun s => { s with held := true }).slots) :
    Shift p q h (state, false) (state, true) :=
  .of_updateSlot (f := fun s => { s with held := true }) hlt htag hslots
    (congrArg (·.1, true) htag) fun _ => rfl

theorem Shift.publish {i : Int} (hok : p.publish i = .ok q) :
    Shift p q i.toNat (.free, true) (.busy, false) := by
  obtain ⟨h, rfl, hlt, htag, -, -, hpool⟩ := Pool.publish_eq_ok hok
  exact .of_updateSlot (f := fun s => { s with state := .busy, held := false }) hlt htag
    (by rw [hpool]; rfl) rfl fun _ => rfl

theorem Shift.release {i : Int} (hok : p.release i = .ok q) :
    Shift p q i.toNat (.busy, true) (.free, false) := by
  obtain ⟨h, rfl, hlt, htag, hpool⟩ := Pool.release_eq_ok hok
  exact .of_updateSlot (f := fun s => { s with state := .free, held := false }) hlt htag
    (by rw [hpool]; rfl) rfl fun _ => rfl

/-- A chunk that changes hands and the entry that says so. -/
theorem Inv.shift (inv : l.Inv depth) {a b : Tag} (hshift : Shift l.pool q h a b)
    (hchunk : e.chunk = some h) (htag : e.tag = b) (hread : a = (.busy, true) → e = .released h)
    (hplaced : ∃ writing reading, q.Placed writing reading)
    (hlent : lent (l.entries ++ [e]) ++ q.free = List.range depth ++ released (l.entries ++ [e]))
    (hpublished : ∃ passed, published (l.entries ++ [e]) = passed ++ waiting q ∧
      passed.map Prod.fst = fetched (l.entries ++ [e]))
    (hnew : ∀ g, e = .fetched g →
      (published l.entries)[(fetched l.entries).length]? = some (g, (q.slot g).bytes)) :
    { pool := q, entries := l.entries ++ [e] : Ledger }.Inv depth := by
  have hlt : h < depth := inv.depth_eq ▸ hshift.lt_depth
  subst htag
  have hknown : ∀ g, latest Entry.chunk (l.entries ++ [e]) g ≠ none → g < depth := by
    intro g hne
    rw [latest_concat, hchunk] at hne
    split at hne
    · rename_i hgh
      exact Option.some.inj hgh ▸ hlt
    · exact inv.known g hne
  refine ⟨hplaced, hshift.depth_eq.trans inv.depth_eq, hshift.tags_concat hchunk inv.tag_eq, hknown,
    hlent, hpublished, inv.reading_concat (fun g hg hopen => ⟨?_, hshift.bytes g⟩) fun g he => ?_⟩
  · have hgh : g ≠ h := by
      rintro rfl
      exact hopen (hread (hshift.tag_eq ▸ hg))
    rw [hshift.tags, if_neg hgh, hg]
  · subst he
    obtain rfl : g = h := Option.some.inj hchunk
    exact ⟨hlt, by rw [hshift.tags, if_pos rfl]; rfl, hnew g rfl⟩

/-- Chunks that wait are not touched by what happens to others. -/
theorem waiting_congr (hbusy : q.busy = p.busy)
    (hbytes : ∀ g ∈ p.busy, (q.slot g).bytes = (p.slot g).bytes) : waiting q = waiting p := by
  rw [waiting, hbusy]
  exact List.map_congr_left fun g hg => by rw [hbytes g hg]

/-! ## Calls keep the invariant -/

theorem Inv.lend (inv : l.Inv depth) (hok : .ok (h, p) ∈ l.pool.freeOutcomes) :
    { pool := p, entries := l.entries ++ [.lent h] : Ledger }.Inv depth := by
  obtain ⟨writing, reading, hp⟩ := inv.placed
  obtain ⟨rest, hfree, hpool⟩ := Pool.ok_mem_freeOutcomes.mp hok
  have hplace : h ∈ l.pool.place writing reading (.free, false) := by simp [Pool.place, hfree]
  have hshift : Shift l.pool p h (.free, false) (.free, true) :=
    .hold (hp.lt_depth hplace) (hp.tag_eq hplace) (by rw [hpool]; rfl)
  obtain ⟨hplaced, -, hrest, -, hbytes⟩ := hp.acquireFree hfree hpool
  obtain ⟨passed, hpublished, hpassed⟩ := inv.published_eq
  refine inv.shift hshift rfl rfl (by simp) ⟨_, _, hplaced⟩ ?_ ⟨passed, ?_, ?_⟩ (by simp)
  · have hlent := inv.lent_eq
    rw [hfree] at hlent
    simpa [lent, released, hrest] using hlent
  · rw [waiting_congr (by rw [hpool]; rfl) fun g _ => hbytes g]
    simpa [published] using hpublished
  · simpa [fetched] using hpassed

theorem Inv.publish (inv : l.Inv depth) {i : Int} (hok : l.pool.publish i = .ok p) :
    { pool := p
      entries := l.entries ++ [.published i.toNat (l.pool.slot i.toNat).bytes] : Ledger }.Inv
      depth := by
  obtain ⟨writing, reading, hp⟩ := inv.placed
  have hshift := Shift.publish hok
  obtain ⟨h, rfl, hlt, htag, hsealed, hclosed, -⟩ := Pool.publish_eq_ok hok
  have hmem : h ∈ writing := (hp.mem_iff (.free, true) h).mpr ⟨hlt, htag⟩
  obtain ⟨p', hok', hplaced, -, hfree, hbusy, -, hbytes⟩ := hp.publish hmem ⟨hsealed, hclosed⟩
  obtain rfl := Except.ok.inj (hok.symm.trans hok')
  obtain ⟨passed, hpublished, hpassed⟩ := inv.published_eq
  refine inv.shift hshift rfl rfl (by simp) ⟨_, _, hplaced⟩ ?_ ⟨passed, ?_, ?_⟩ (by simp)
  · simpa [lent, released, hfree] using inv.lent_eq
  · have hwaiting : waiting p = waiting l.pool ++ [(h, (l.pool.slot h).bytes)] := by
      simp [waiting, hbusy, hbytes]
    rw [hwaiting, ← List.append_assoc, ← hpublished]
    simp [published]
  · simpa [fetched] using hpassed

theorem Inv.fetch (inv : l.Inv depth) (hok : .ok (h, p) ∈ l.pool.busyOutcomes) :
    { pool := p, entries := l.entries ++ [.fetched h] : Ledger }.Inv depth := by
  obtain ⟨writing, reading, hp⟩ := inv.placed
  obtain ⟨rest, hbusy, hpool⟩ := Pool.ok_mem_busyOutcomes.mp hok
  have hplace : h ∈ l.pool.place writing reading (.busy, false) := by simp [Pool.place, hbusy]
  have hshift : Shift l.pool p h (.busy, false) (.busy, true) :=
    .hold (hp.lt_depth hplace) (hp.tag_eq hplace) (by rw [hpool]; rfl)
  obtain ⟨hplaced, -, hfree, hrest, -, hbytes⟩ := hp.acquireBusy hbusy hpool
  obtain ⟨passed, hpublished, hpassed⟩ := inv.published_eq
  -- The chunk at the head of the queue is the one published when as many had been fetched.
  have hwaiting : waiting l.pool = (h, (p.slot h).bytes) :: waiting p := by
    simp [waiting, hbusy, hrest, hbytes]
  rw [hwaiting] at hpublished
  refine inv.shift hshift rfl rfl (by simp) ⟨_, _, hplaced⟩ ?_
    ⟨passed ++ [(h, (p.slot h).bytes)], ?_, ?_⟩ ?_
  · simpa [lent, released, hfree] using inv.lent_eq
  · simpa [published] using hpublished
  · simpa [fetched] using hpassed
  · rintro g he
    obtain rfl := Entry.fetched.inj he
    rw [hpublished, ← hpassed, List.length_map, List.getElem?_append_right (Nat.le_refl _)]
    simp

theorem Inv.release (inv : l.Inv depth) {i : Int} (hok : l.pool.release i = .ok p) :
    { pool := p, entries := l.entries ++ [.released i.toNat] : Ledger }.Inv depth := by
  obtain ⟨writing, reading, hp⟩ := inv.placed
  have hshift := Shift.release hok
  obtain ⟨h, rfl, hlt, htag, -⟩ := Pool.release_eq_ok hok
  have hmem : h ∈ reading := (hp.mem_iff (.busy, true) h).mpr ⟨hlt, htag⟩
  obtain ⟨p', hok', hplaced, -, hfree, hbusy, -, hbytes⟩ := hp.release hmem
  obtain rfl := Except.ok.inj (hok.symm.trans hok')
  obtain ⟨passed, hpublished, hpassed⟩ := inv.published_eq
  refine inv.shift hshift rfl rfl (fun _ => rfl) ⟨_, _, hplaced⟩ ?_ ⟨passed, ?_, ?_⟩ (by simp)
  · have hlent := congrArg (· ++ [h]) inv.lent_eq
    simpa [lent, released, hfree] using hlent
  · rw [waiting_congr hbusy fun g _ => hbytes g]
    simpa [published] using hpublished
  · simpa [fetched] using hpassed

/-- Bytes are written to a chunk that nobody waits for or reads. -/
theorem Inv.write (inv : l.Inv depth) {offset : Nat} {data : List UInt8}
    (hlent : latest Entry.chunk l.entries h = some (.lent h))
    (hfit : offset + data.length ≤ l.pool.size) :
    { l with pool := l.pool.write h offset data }.Inv depth := by
  obtain ⟨writing, reading, hp⟩ := inv.placed
  have hlt : h < depth := inv.known h (by simp [hlent])
  have htag : (l.pool.slot h).tag = (.free, true) := by
    rw [inv.tag_eq h hlt, latestTag, hlent]
    rfl
  have hmem : h ∈ writing := (hp.mem_iff (.free, true) h).mpr ⟨inv.depth_eq ▸ hlt, htag⟩
  obtain ⟨hplaced, hframe, -, hothers, -⟩ := hp.write hmem hfit
  have hsame : ∀ g, (l.pool.slot g).tag ≠ (.free, true) →
      (l.pool.write h offset data).slot g = l.pool.slot g := by
    intro g hg
    exact hothers g (by rintro rfl; exact hg htag)
  obtain ⟨passed, hpublished, hpassed⟩ := inv.published_eq
  refine ⟨⟨_, _, hplaced⟩, hframe.depth_eq.trans inv.depth_eq, ?_, inv.known, inv.lent_eq,
    ⟨passed, ?_, hpassed⟩, ?_⟩
  · intro g hg
    rw [← inv.tag_eq g hg]
    by_cases hgh : g = h
    · have hplace : h ∈ (l.pool.write h offset data).place writing reading (.free, true) := hmem
      rw [hgh, hplaced.tag_eq hplace, htag]
    · rw [hothers g hgh]
  · have hwaiting : waiting (l.pool.write h offset data) = waiting l.pool := by
      refine waiting_congr rfl fun g hg => ?_
      have hplace : g ∈ l.pool.place writing reading (.busy, false) := hg
      rw [hsame g (by simp [hp.tag_eq hplace])]
    exact hwaiting ▸ hpublished
  · intro earlier g later heq hopen
    obtain ⟨hg, htag', hbytes⟩ := inv.reading earlier g later heq hopen
    rw [hsame g (by simp [htag'])]
    exact ⟨hg, htag', hbytes⟩

/-- An entry that is about no chunk changes nothing else. -/
theorem Inv.remark (inv : l.Inv depth) (hchunk : e.chunk = none) :
    { l with entries := l.entries ++ [e] }.Inv depth := by
  have hlast : ∀ g, latest Entry.chunk (l.entries ++ [e]) g = latest Entry.chunk l.entries g := by
    intro g
    rw [latest_concat, if_neg (by simp [hchunk])]
  have htag : ∀ g, latestTag Entry.chunk Entry.tag (l.entries ++ [e]) g =
      latestTag Entry.chunk Entry.tag l.entries g := by
    intro g
    rw [latestTag_concat, if_neg (by simp [hchunk])]
  have hplain : lent [e] = [] ∧ published [e] = [] ∧ fetched [e] = [] ∧ released [e] = [] := by
    cases e <;> simp [Entry.chunk, lent, published, fetched, released] at hchunk ⊢
  simp only [lent, published, fetched, released] at hplain
  obtain ⟨hlent, hpublished, hfetched, hreleased⟩ := hplain
  exact
    { placed := inv.placed
      depth_eq := inv.depth_eq
      tag_eq := fun g hg => by rw [htag]; exact inv.tag_eq g hg
      known := fun g hg => inv.known g (hlast g ▸ hg)
      lent_eq := by
        simpa only [lent, released, List.filterMap_append, hlent, hreleased, List.append_nil]
          using inv.lent_eq
      published_eq := by
        simpa only [published, fetched, List.filterMap_append, hpublished, hfetched,
          List.append_nil] using inv.published_eq
      reading := inv.reading_concat (fun g hg _ => ⟨hg, rfl⟩) (by rintro g rfl; cases hchunk) }

/-- Ending the pool, or publishing, leaves the chunks alone. -/
theorem Inv.reflag (inv : l.Inv depth) (isSealed isClosed : Bool) :
    { l with pool := { l.pool with isSealed, isClosed } }.Inv depth := by
  obtain ⟨writing, reading, hp⟩ := inv.placed
  exact ⟨⟨writing, reading, hp.nodup, hp.mem_iff, hp.count_eq, hp.length_eq⟩, inv.depth_eq,
    inv.tag_eq, inv.known, inv.lent_eq, inv.published_eq, inv.reading⟩

theorem Inv.move (inv : l.Inv depth) (hmove : Move l l') : l'.Inv depth := by
  cases hmove with
  | lend hok => exact inv.lend hok
  | write h offset data hlent hfit => exact inv.write hlent hfit
  | publish i hok => exact inv.publish hok
  | fetch hok => exact inv.fetch hok
  | fetchRefused herror => exact inv.remark rfl
  | release i hok => exact inv.release hok
  | lendRefused | publishRefused | releaseRefused => exact inv
  | finish => exact (inv.reflag true l.pool.isClosed).remark rfl
  | close => exact (inv.reflag l.pool.isSealed true).remark rfl

theorem Inv.reach (inv : l.Inv depth) (hreach : Reach l l') : l'.Inv depth := by
  induction hreach with
  | refl => exact inv
  | tail _ hmove ih => exact ih.move hmove

theorem create_inv {depth size : Int} (hcreate : Pool.create depth size = .ok p) :
    { pool := p : Ledger }.Inv depth.toNat := by
  obtain ⟨hp, -⟩ := Pool.placed_create hcreate
  obtain ⟨-, -, hpool⟩ := Pool.create_eq_ok hcreate
  have hdepth : p.depth = depth.toNat := by simp [hpool, Pool.depth]
  have hfree : p.free = List.range depth.toNat := by rw [hpool]
  exact
    { placed := ⟨_, _, hp⟩
      depth_eq := hdepth
      tag_eq := fun h hlt => by
        refine hp.tag_eq (a := (.free, false)) ?_
        simpa [Pool.place, hfree] using hlt
      known := by simp [latest]
      lent_eq := by simp [lent, released, hfree]
      published_eq := ⟨[], by simp [published, waiting, hpool], by simp [fetched]⟩
      reading := by simp }

/-! ## After the seal -/

/-- The ledger says which ends the pool has come to. -/
structure Dated (l : Ledger) : Prop where
  sealed_iff : l.pool.isSealed = true ↔ .sealed ∈ l.entries
  closed_iff : l.pool.isClosed = true ↔ .closed ∈ l.entries

/-- A call that ends nothing and is noted as such. -/
theorem Dated.concat (hd : l.Dated) (hsealed : q.isSealed = l.pool.isSealed)
    (hclosed : q.isClosed = l.pool.isClosed) (hseal : e ≠ .sealed) (hclose : e ≠ .closed) :
    { pool := q, entries := l.entries ++ [e] : Ledger }.Dated where
  sealed_iff := by simp [hsealed, hd.sealed_iff, hseal.symm]
  closed_iff := by simp [hclosed, hd.closed_iff, hclose.symm]

theorem Dated.move (hd : l.Dated) (hmove : Move l l') : l'.Dated := by
  cases hmove with
  | lend hok =>
    obtain ⟨rest, -, rfl⟩ := Pool.ok_mem_freeOutcomes.mp hok
    exact hd.concat rfl rfl (by simp) (by simp)
  | publish i hok =>
    obtain ⟨h, -, -, -, -, -, rfl⟩ := Pool.publish_eq_ok hok
    exact hd.concat rfl rfl (by simp) (by simp)
  | fetch hok =>
    obtain ⟨rest, -, rfl⟩ := Pool.ok_mem_busyOutcomes.mp hok
    exact hd.concat rfl rfl (by simp) (by simp)
  | fetchRefused herror => exact hd.concat rfl rfl (by simp) (by simp)
  | release i hok =>
    obtain ⟨h, -, -, -, rfl⟩ := Pool.release_eq_ok hok
    exact hd.concat rfl rfl (by simp) (by simp)
  | write => exact ⟨hd.sealed_iff, hd.closed_iff⟩
  | lendRefused | publishRefused | releaseRefused => exact hd
  | finish => exact ⟨by simp [Pool.finish], by simp [Pool.finish, hd.closed_iff]⟩
  | close => exact ⟨by simp [Pool.close, hd.sealed_iff], by simp [Pool.close]⟩

theorem Dated.reach (hd : l.Dated) (hreach : Reach l l') : l'.Dated := by
  induction hreach with
  | refl => exact hd
  | tail _ hmove ih => exact ih.move hmove

theorem create_dated {depth size : Int} (hcreate : Pool.create depth size = .ok p) :
    { pool := p : Ledger }.Dated := by
  obtain ⟨-, -, hpool⟩ := Pool.create_eq_ok hcreate
  constructor <;> simp [hpool]

/-- A pool that has ended stays so. -/
theorem Move.closed (hmove : Move l l') (hopen : l'.pool.isClosed = false) :
    l.pool.isClosed = false := by
  cases hmove with
  | lend hok =>
    obtain ⟨rest, -, rfl⟩ := Pool.ok_mem_freeOutcomes.mp hok
    exact hopen
  | fetch hok =>
    obtain ⟨rest, -, rfl⟩ := Pool.ok_mem_busyOutcomes.mp hok
    exact hopen
  | publish i hok =>
    obtain ⟨h, -, -, -, -, hclosed, -⟩ := Pool.publish_eq_ok hok
    exact hclosed
  | release i hok =>
    obtain ⟨h, -, -, -, rfl⟩ := Pool.release_eq_ok hok
    exact hopen
  | close => cases hopen
  | _ => exact hopen

/-- What is acquired from a sealed pool, together with what is still in the busy
queue, is what was there when it was sealed; refusals come only after that. -/
theorem sealed_reach (hsealed : l.pool.isSealed = true) (hreach : Reach l l')
    (hopen : l'.pool.isClosed = false) :
    l'.pool.isSealed = true ∧ published l'.entries = published l.entries ∧
      ∃ later n, answers l'.entries = answers l.entries ++ later ∧
        later ++ l'.pool.busy.map .ok =
          l.pool.busy.map .ok ++ List.replicate n (.error .poolClosed) ∧
        (n ≠ 0 → l'.pool.busy = []) := by
  induction hreach with
  | refl => exact ⟨hsealed, rfl, [], 0, by simp⟩
  | @tail a b hreach hmove ih =>
    have haopen := hmove.closed hopen
    obtain ⟨hs, hpub, later, n, hanswers, hlater, hnone⟩ := ih haopen
    cases hmove with
    | lend hok =>
      obtain ⟨rest, -, rfl⟩ := Pool.ok_mem_freeOutcomes.mp hok
      exact ⟨hs, by simpa [published] using hpub, later, n, by simpa [answers] using hanswers,
        hlater, hnone⟩
    | publish i hok =>
      obtain ⟨h, -, -, -, hnot, -⟩ := Pool.publish_eq_ok hok
      simp [hs] at hnot
    | @fetch h _ hok =>
      obtain ⟨rest, hbusy, rfl⟩ := Pool.ok_mem_busyOutcomes.mp hok
      obtain rfl : n = 0 := by
        by_contra hn
        simp [hnone hn] at hbusy
      refine ⟨hs, by simpa [published] using hpub, later ++ [.ok h], 0, ?_, ?_, by simp⟩
      · simpa [answers] using congrArg (· ++ [.ok h]) hanswers
      · rw [hbusy] at hlater
        simpa [Pool.updateSlot] using hlater
    | fetchRefused herror =>
      rcases Pool.mem_busyOutcomes.mp herror with ⟨hclosed, -⟩ | ⟨h, rest, -, hok⟩ | ⟨hbusy, -, heq⟩
      · simp [haopen] at hclosed
      · cases hok
      · cases heq
        refine ⟨hs, by simpa [published] using hpub, later ++ [.error .poolClosed], n + 1,
          ?_, ?_, fun _ => hbusy⟩
        · simpa [answers] using congrArg (· ++ [.error .poolClosed]) hanswers
        · simp only [hbusy, List.map_nil, List.append_nil] at hlater ⊢
          rw [hlater, List.append_assoc, List.replicate_succ']
    | release i hok =>
      obtain ⟨h, -, -, -, rfl⟩ := Pool.release_eq_ok hok
      exact ⟨hs, by simpa [published] using hpub, later, n, by simpa [answers] using hanswers,
        hlater, hnone⟩
    | close => cases hopen
    | finish =>
      exact ⟨rfl, by simpa [published] using hpub, later, n, by simpa [answers] using hanswers,
        hlater, hnone⟩
    | write | lendRefused | publishRefused | releaseRefused =>
      exact ⟨hs, hpub, later, n, hanswers, hlater, hnone⟩

/-! ## What those who acquire chunks may rely on -/

/-- Chunks come in order, and with the bytes that they were published with. -/
structure InOrder (depth : Nat) (l : Ledger) : Prop where
  /-- Chunks are read in the order in which they were published. -/
  fetched_prefix : fetched l.entries <+: (published l.entries).map Prod.fst
  /-- Until it is released, a chunk that was handed out to be read as the `k`-th has the
  bytes that it had when it was published as the `k`-th. -/
  fetched_bytes : ∀ earlier (h : Nat) later, l.entries = earlier ++ .fetched h :: later →
    .released h ∉ later → ∃ bytes, l.pool.bytes h = .ok bytes ∧
      (published l.entries)[(fetched earlier).length]? = some (h, bytes)
  /-- Chunks are handed out to be written in the order in which they are in a new pool,
  then in the order in which they were released. -/
  lent_prefix : lent l.entries <+: List.range depth ++ released l.entries
  /-- After a seal, and as long as the pool is not closed, nothing more is published, and a
  call that acquires a chunk to read never waits: the chunks that were published and not yet
  handed out come in order, and then every call finds the pool at its end. -/
  after_seal : .sealed ∈ l.entries → ∀ l', Reach l l' → .closed ∉ l'.entries →
    published l'.entries = published l.entries ∧ l'.pool.acquireBusy.isSome ∧
      ∃ later, answers l'.entries = answers l.entries ++ later ∧
        later <+: (((published l.entries).map Prod.fst).drop (fetched l.entries).length).map .ok ++
          List.replicate later.length (.error .poolClosed)

/-- What has been published and not yet handed out is in the busy queue. -/
theorem Inv.busy_eq (inv : l.Inv depth) :
    (published l.entries).map Prod.fst = fetched l.entries ++ l.pool.busy := by
  obtain ⟨passed, hpublished, hpassed⟩ := inv.published_eq
  rw [hpublished, List.map_append, hpassed]
  simp [waiting, Function.comp_def]

theorem Inv.after_seal (inv : l.Inv depth) (hd : l.Dated) (hseal : .sealed ∈ l.entries)
    (hreach : Reach l l') (hclose : .closed ∉ l'.entries) :
    published l'.entries = published l.entries ∧ l'.pool.acquireBusy.isSome ∧
      ∃ later, answers l'.entries = answers l.entries ++ later ∧
        later <+: (((published l.entries).map Prod.fst).drop (fetched l.entries).length).map .ok ++
          List.replicate later.length (.error .poolClosed) := by
  have hopen : l'.pool.isClosed = false := by
    rw [← Bool.not_eq_true, (hd.reach hreach).closed_iff]
    exact hclose
  obtain ⟨hsealed, hpublished, later, n, hanswers, hlater, hnone⟩ :=
    sealed_reach (hd.sealed_iff.mpr hseal) hreach hopen
  refine ⟨hpublished, ?_, later, hanswers, ?_⟩
  · cases hbusy : l'.pool.busy <;>
      simp [Pool.acquireBusy, Pool.busyOutcomes, hbusy, hopen, hsealed]
  · have hlength := congrArg List.length hlater
    simp only [List.length_append, List.length_map, List.length_replicate] at hlength
    have hn : n ≤ later.length := by
      by_cases hzero : n = 0
      · omega
      · simp only [hnone hzero, List.length_nil] at hlength
        omega
    rw [inv.busy_eq, List.drop_left]
    calc later <+: later ++ l'.pool.busy.map .ok := List.prefix_append _ _
      _ = l.pool.busy.map .ok ++ List.replicate n (.error .poolClosed) := hlater
      _ <+: l.pool.busy.map .ok ++ List.replicate later.length (.error .poolClosed) :=
        (List.prefix_append_right_inj _).mpr (List.prefix_replicate_iff.mpr (by simpa using hn))

theorem Inv.inOrder (inv : l.Inv depth) (hd : l.Dated) : l.InOrder depth where
  fetched_prefix := ⟨_, inv.busy_eq.symm⟩
  fetched_bytes := by
    intro earlier h later heq hopen
    obtain ⟨hlt, -, hbytes⟩ := inv.reading earlier h later heq hopen
    exact ⟨_, Pool.bytes_of_lt (inv.depth_eq ▸ hlt), hbytes⟩
  lent_prefix := ⟨_, inv.lent_eq⟩
  after_seal := fun hseal _ hreach hclose => inv.after_seal hd hseal hreach hclose

/-- Whatever calls are made on a new pool, its chunks come in order and with the bytes
that they were published with. -/
theorem inOrder_of_reach (depth size : Int) (p : Pool) (hcreate : Pool.create depth size = .ok p)
    (l : Ledger) (hreach : Reach { pool := p } l) : l.InOrder depth.toNat :=
  ((create_inv hcreate).reach hreach).inOrder ((create_dated hcreate).reach hreach)

/-- A single chunk that goes around twice, with other bytes each time, and is read for
the second time after the pool was sealed.  The pool is sealed and not closed. -/
theorem inOrder_of_reach_single_chunk :
    ∃ p l, Pool.create 1 1 = .ok p ∧ Reach { pool := p } l ∧ l.pool.bytes 0 = .ok [9] ∧
      l.pool.isSealed = true ∧ l.pool.isClosed = false ∧
      l.entries = [.lent 0, .published 0 [7], .fetched 0, .released 0, .lent 0, .published 0 [9],
        .sealed, .fetched 0, .refused .poolClosed] ∧ l.InOrder 1 := by
  have hreach : Reach { pool := { size := 1, slots := #[{ bytes := [0] }], free := [0] } }
      { pool :=
          { size := 1, slots := #[{ bytes := [9], state := .busy, held := true }], free := []
            busyCount := 1, isSealed := true }
        entries := [.lent 0, .published 0 [7], .fetched 0, .released 0, .lent 0,
          .published 0 [9], .sealed, .fetched 0, .refused .poolClosed] } := by
    refine .head (.lend (List.mem_singleton.mpr rfl)) ?_
    refine .head (.write 0 0 [7] rfl (by decide)) ?_
    refine .head (.publish 0 rfl) ?_
    refine .head (.fetch (List.mem_singleton.mpr rfl)) ?_
    refine .head (.release 0 rfl) ?_
    refine .head (.lend (List.mem_singleton.mpr rfl)) ?_
    refine .head (.write 0 0 [9] rfl (by decide)) ?_
    refine .head (.publish 0 rfl) ?_
    refine .head .finish ?_
    refine .head (.fetch (List.mem_singleton.mpr rfl)) ?_
    exact .single (.fetchRefused (List.mem_singleton.mpr rfl))
  exact ⟨_, _, rfl, hreach, rfl, rfl, rfl, rfl, inOrder_of_reach 1 1 _ rfl _ hreach⟩

end Ledger

end Cosim

import Cosim.Proofs.Custody
import Cosim.Proofs.Ledger

/-!
# Who has a chunk, by what was done with it

The slots of a pool say in what state a chunk is and whether it is checked out, not by whom.
That is enough: together with the calls that came before, these two marks tell who may publish
or release a chunk, even if callers pass handles that were never theirs.

* `Register` is a pool with its callers and a register of the calls that succeeded.  Calls come
  in any order and with any handles; acquiring a chunk takes two steps, as in `Custody`.
* `Register.Inv` ties the two marks of each slot to the last deed about its chunk.
* `Register.Alternating` says that a chunk is not acquired twice in a row.
* `Register.Lawful` collects which calls succeed, what the others answer, and what they leave
  behind; `Register.lawful_of_reach` is the main statement.
-/

namespace Cosim

/-- What a call that succeeded has done. -/
inductive Register.Deed where
  /-- A free chunk was acquired. -/
  | lent (h : Nat)
  | published (h : Nat)
  /-- A busy chunk was acquired. -/
  | fetched (h : Nat)
  | released (h : Nat)
  | sealed
  | closed
deriving DecidableEq

/-- The chunk that a deed is about. -/
def Register.Deed.chunk : Deed → Option Nat
  | .lent h | .published h | .fetched h | .released h => some h
  | .sealed | .closed => none

/-- How a deed leaves the slot of its chunk. -/
def Register.Deed.tag : Deed → Tag
  | .lent _ => (.free, true)
  | .published _ => (.busy, false)
  | .fetched _ => (.busy, true)
  | .released _ | .sealed | .closed => (.free, false)

/-- A pool with its callers, and the deeds done with it in order. -/
structure Register extends Custody where
  deeds : List Register.Deed := []

namespace Register

open Ledger (latest latestTag)

/-! ## Reading the register -/

/-- The tag that a chunk should have. -/
def tagOf (deeds : List Deed) (h : Nat) : Tag := latestTag Deed.chunk Deed.tag deeds h

/-- What is reported about the chunk of a handle, in a pool of so many chunks. -/
def found (depth : Nat) (deeds : List Deed) (i : Int) : Option Tag :=
  if 0 ≤ i ∧ i < depth then some (tagOf deeds i.toNat) else none

/-- Between two deeds that acquire the same chunk, it was published or released. -/
def Alternating (deeds : List Deed) : Prop :=
  ∀ earlier d between d' later h, deeds = earlier ++ d :: between ++ d' :: later →
    (d = .lent h ∨ d = .fetched h) → (d' = .lent h ∨ d' = .fetched h) →
    .published h ∈ between ∨ .released h ∈ between

variable {deeds : List Deed} {e : Deed} {h : Nat}

/-- Among the deeds about a chunk, the tag tells those that acquire it. -/
theorem Deed.eq_of_tag {d : Deed} (hheld : e.tag.2 = true) (hchunk : d.chunk = e.chunk)
    (htag : d.tag = e.tag) : d = e := by
  cases e <;> cases d <;> simp_all [Deed.chunk, Deed.tag]

/-- A deed may follow if the chunk that it acquires is not checked out. -/
theorem Alternating.concat (halt : Alternating deeds)
    (hopen : ∀ h, e = .lent h ∨ e = .fetched h → (tagOf deeds h).2 = false) :
    Alternating (deeds ++ [e]) := by
  intro earlier d between d' later h heq hd hd'
  rcases List.eq_nil_or_concat later with rfl | ⟨later', e', rfl⟩
  · -- The new deed is the second of the two: the last deed about the chunk lies between them.
    obtain ⟨hdeeds, he⟩ := List.append_inj' heq rfl
    have hheld := hopen h (List.singleton_inj.mp he ▸ hd')
    have hlast : latest Deed.chunk deeds h = ((latest Deed.chunk between h).or
        (latest Deed.chunk [d] h)).or (latest Deed.chunk earlier h) := by
      rw [hdeeds, Ledger.latest_append, ← List.singleton_append, Ledger.latest_append]
    unfold tagOf latestTag at hheld
    cases hbetween : latest Deed.chunk between h with
    | none =>
      rw [hlast, hbetween] at hheld
      rcases hd with rfl | rfl <;> simp [latest, Deed.chunk, Deed.tag] at hheld
    | some b =>
      rw [hlast, hbetween] at hheld
      obtain ⟨hmem, hchunk⟩ := Ledger.mem_of_latest hbetween
      cases b <;> simp_all [Deed.chunk, Deed.tag]
  · rw [List.concat_eq_append, ← List.cons_append, ← List.append_assoc] at heq
    exact halt earlier d between d' later' h (List.append_inj' heq rfl).1 hd hd'

/-! ## Calls -/

/-- A call that publishes, and the register after it. -/
def publish (r : Register) (i : Int) : Register :=
  match r.pool.publish i with
  | .ok p =>
    { r with
      pool := p, writing := r.writing.erase i.toNat
      deeds := r.deeds ++ [.published i.toNat] }
  | .error _ => r

/-- A call that releases, and the register after it. -/
def release (r : Register) (i : Int) : Register :=
  match r.pool.release i with
  | .ok p =>
    { r with
      pool := p, reading := r.reading.erase i.toNat
      deeds := r.deeds ++ [.released i.toNat] }
  | .error _ => r

/-- One step of a call. -/
inductive Move : Register → Register → Prop where
  | receiveFree {r h rest} (hfree : r.pool.free = h :: rest) :
      Move r { r with pool := { r.pool with free := rest }, leaving := r.leaving ++ [h] }
  | lend {r h} (hmem : h ∈ r.leaving) :
      Move r
        { r with
          pool := r.pool.hold h, leaving := r.leaving.erase h, writing := r.writing ++ [h]
          deeds := r.deeds ++ [.lent h] }
  | receiveBusy {r h rest} (hbusy : r.pool.busy = h :: rest) :
      Move r { r with pool := { r.pool with busy := rest }, arriving := r.arriving ++ [h] }
  | fetch {r h} (hmem : h ∈ r.arriving) :
      Move r
        { r with
          pool := r.pool.hold h, arriving := r.arriving.erase h, reading := r.reading ++ [h]
          deeds := r.deeds ++ [.fetched h] }
  | publish {r} (i : Int) : Move r (r.publish i)
  | release {r} (i : Int) : Move r (r.release i)
  | finish {r} : Move r { r with pool := r.pool.finish, deeds := r.deeds ++ [.sealed] }
  | close {r} : Move r { r with pool := r.pool.close, deeds := r.deeds ++ [.closed] }

/-- Any number of steps of any calls. -/
abbrev Reach : Register → Register → Prop := Relation.ReflTransGen Move

variable {r r' : Register} {p : Pool} {depth : Nat}

/-- A call that acquires a free chunk and is not interrupted takes both steps. -/
theorem reach_acquireFree (hleaving : r.leaving = []) (hok : .ok (h, p) ∈ r.pool.freeOutcomes) :
    Reach r
      { r with pool := p, writing := r.writing ++ [h], deeds := r.deeds ++ [.lent h] } := by
  obtain ⟨rest, hfree, rfl⟩ := Pool.ok_mem_freeOutcomes.mp hok
  have hfirst := Relation.ReflTransGen.single (Move.receiveFree hfree)
  have hsecond := hfirst.tail (.lend (h := h) (by simp))
  simpa [hleaving, Pool.hold] using hsecond

/-- A call that acquires a busy chunk and is not interrupted takes both steps. -/
theorem reach_acquireBusy (harriving : r.arriving = []) (hok : .ok (h, p) ∈ r.pool.busyOutcomes) :
    Reach r
      { r with pool := p, reading := r.reading ++ [h], deeds := r.deeds ++ [.fetched h] } := by
  obtain ⟨rest, hbusy, rfl⟩ := Pool.ok_mem_busyOutcomes.mp hok
  have hfirst := Relation.ReflTransGen.single (Move.receiveBusy hbusy)
  have hsecond := hfirst.tail (.fetch (h := h) (by simp))
  simpa [harriving, Pool.hold] using hsecond

/-! ## The invariant -/

/-- The register accounts for the marks in the pool. -/
structure Inv (depth : Nat) (r : Register) : Prop where
  custody : r.toCustody.Inv
  depth_eq : r.pool.depth = depth
  tag_eq : ∀ h < depth, (r.pool.slot h).tag = tagOf r.deeds h
  sealed_iff : r.pool.isSealed = true ↔ .sealed ∈ r.deeds
  closed_iff : r.pool.isClosed = true ↔ .closed ∈ r.deeds
  alternating : Alternating r.deeds

/-- A chunk changes hands, and the deed that says so. -/
theorem Inv.shift (inv : r.Inv depth) {a : Tag} (hshift : Ledger.Shift r.pool r'.pool h a e.tag)
    (hdeeds : r'.deeds = r.deeds ++ [e]) (hchunk : e.chunk = some h)
    (hopen : e.tag.2 = true → a.2 = false) (hcustody : r'.toCustody.Inv)
    (hsealed : r'.pool.isSealed = r.pool.isSealed) (hclosed : r'.pool.isClosed = r.pool.isClosed) :
    r'.Inv depth := by
  have hlt : h < depth := inv.depth_eq ▸ hshift.lt_depth
  have hseal : e ≠ .sealed := by
    rintro rfl
    cases hchunk
  have hclose : e ≠ .closed := by
    rintro rfl
    cases hchunk
  refine ⟨hcustody, hshift.depth_eq.trans inv.depth_eq, ?_, ?_, ?_, ?_⟩
  · intro g hg
    rw [hdeeds]
    exact hshift.tags_concat hchunk inv.tag_eq g hg
  · rw [hsealed, hdeeds, inv.sealed_iff]
    simp [hseal.symm]
  · rw [hclosed, hdeeds, inv.closed_iff]
    simp [hclose.symm]
  · rw [hdeeds]
    refine inv.alternating.concat ?_
    intro g hg
    have hgh : g = h ∧ e.tag.2 = true := by
      rcases hg with rfl | rfl
      · exact ⟨Option.some.inj hchunk, rfl⟩
      · exact ⟨Option.some.inj hchunk, rfl⟩
    rw [hgh.1, ← inv.tag_eq h hlt, hshift.tag_eq]
    exact hopen hgh.2

/-- Ending the pool leaves the marks alone. -/
theorem Inv.flag (inv : r.Inv depth) (hchunk : e.chunk = none) (hcustody : r'.toCustody.Inv)
    (hslots : r'.pool.slots = r.pool.slots) (hdeeds : r'.deeds = r.deeds ++ [e])
    (hsealed : r'.pool.isSealed = (r.pool.isSealed || e == .sealed))
    (hclosed : r'.pool.isClosed = (r.pool.isClosed || e == .closed)) : r'.Inv depth := by
  refine ⟨hcustody, ?_, ?_, ?_, ?_, ?_⟩
  · rw [← inv.depth_eq, Pool.depth, hslots, Pool.depth]
  · intro g hg
    have htag : tagOf r'.deeds g = tagOf r.deeds g := by
      rw [tagOf, hdeeds, Ledger.latestTag_concat, hchunk, if_neg (by simp), tagOf]
    rw [htag, ← inv.tag_eq g hg, Pool.slot, hslots, Pool.slot]
  · rw [hsealed, hdeeds, Bool.or_eq_true, inv.sealed_iff, List.mem_append, List.mem_singleton,
      beq_iff_eq, eq_comm (a := e)]
  · rw [hclosed, hdeeds, Bool.or_eq_true, inv.closed_iff, List.mem_append, List.mem_singleton,
      beq_iff_eq, eq_comm (a := e)]
  · rw [hdeeds]
    refine inv.alternating.concat ?_
    intro g hg
    rcases hg with rfl | rfl <;> cases hchunk

theorem Inv.publish (inv : r.Inv depth) (i : Int) : (r.publish i).Inv depth := by
  unfold Register.publish
  cases hresult : r.pool.publish i with
  | error e => exact inv
  | ok p =>
    have hshift := Ledger.Shift.publish hresult
    obtain ⟨h, rfl, -, -, -, -, hpool⟩ := Pool.publish_eq_ok hresult
    exact inv.shift (e := .published h) hshift rfl rfl (by simp [Deed.tag])
      (inv.custody.publish hresult) (by rw [hpool]; rfl) (by rw [hpool]; rfl)

theorem Inv.release (inv : r.Inv depth) (i : Int) : (r.release i).Inv depth := by
  unfold Register.release
  cases hresult : r.pool.release i with
  | error e => exact inv
  | ok p =>
    have hshift := Ledger.Shift.release hresult
    obtain ⟨h, rfl, -, -, hpool⟩ := Pool.release_eq_ok hresult
    exact inv.shift (e := .released h) hshift rfl rfl (by simp [Deed.tag])
      (inv.custody.release hresult) (by rw [hpool]; rfl) (by rw [hpool]; rfl)

theorem Inv.move (inv : r.Inv depth) (hmove : Move r r') : r'.Inv depth := by
  cases hmove with
  | receiveFree hfree =>
    exact ⟨inv.custody.move (.receiveFree hfree), inv.depth_eq, inv.tag_eq, inv.sealed_iff,
      inv.closed_iff, inv.alternating⟩
  | receiveBusy hbusy =>
    exact ⟨inv.custody.move (.receiveBusy hbusy), inv.depth_eq, inv.tag_eq, inv.sealed_iff,
      inv.closed_iff, inv.alternating⟩
  | @lend h hmem =>
    have hplace : h ∈ r.resting.place r.writing r.reading (.free, false) :=
      List.mem_append_left _ hmem
    have hshift : Ledger.Shift r.pool (r.pool.hold h) h (.free, false) (.free, true) :=
      .hold (inv.custody.lt_depth hplace) (inv.custody.tag_eq hplace) rfl
    exact inv.shift (e := .lent h) hshift rfl rfl (fun _ => rfl)
      (inv.custody.move (.holdFree hmem)) rfl rfl
  | @fetch h hmem =>
    have hplace : h ∈ r.resting.place r.writing r.reading (.busy, false) :=
      List.mem_append_left _ hmem
    have hshift : Ledger.Shift r.pool (r.pool.hold h) h (.busy, false) (.busy, true) :=
      .hold (inv.custody.lt_depth hplace) (inv.custody.tag_eq hplace) rfl
    exact inv.shift (e := .fetched h) hshift rfl rfl (fun _ => rfl)
      (inv.custody.move (.holdBusy hmem)) rfl rfl
  | publish i => exact inv.publish i
  | release i => exact inv.release i
  | finish =>
    exact inv.flag (e := .sealed) rfl (inv.custody.move .finish) rfl rfl (by simp [Pool.finish])
      (by simp [Pool.finish])
  | close =>
    exact inv.flag (e := .closed) rfl (inv.custody.move .close) rfl rfl (by simp [Pool.close])
      (by simp [Pool.close])

theorem Inv.reach (inv : r.Inv depth) (hreach : Reach r r') : r'.Inv depth := by
  induction hreach with
  | refl => exact inv
  | tail _ hmove ih => exact ih.move hmove

theorem create_inv {depth size : Int} (hcreate : Pool.create depth size = .ok p) :
    { pool := p : Register }.Inv depth.toNat := by
  obtain ⟨-, -, hpool⟩ := Pool.create_eq_ok hcreate
  obtain ⟨-, -, -, hsealed, hclosed, -⟩ := Pool.placed_create hcreate
  have hledger := Ledger.create_inv hcreate
  refine ⟨Custody.create_inv hcreate, hledger.depth_eq, hledger.tag_eq, by simp [hsealed],
    by simp [hclosed], ?_⟩
  intro earlier d between d' later h heq
  simp at heq

/-! ## What the register says about calls -/

/-- The handle names a chunk, and the last deed about it is of this kind. -/
def LastIs (depth : Nat) (deeds : List Deed) (i : Int) (kind : Nat → Deed) : Prop :=
  ∃ h : Nat, (h : Int) = i ∧ h < depth ∧ latest Deed.chunk deeds h = some (kind h)

theorem lastIs_iff {i : Int} {kind : Nat → Deed} {state : ChunkState}
    (hchunk : ∀ h, (kind h).chunk = some h) (htag : ∀ h, (kind h).tag = (state, true)) :
    LastIs depth deeds i kind ↔ 0 ≤ i ∧ i < depth ∧ tagOf deeds i.toNat = (state, true) := by
  have hlast : ∀ h, tagOf deeds h = (state, true) ↔ latest Deed.chunk deeds h = some (kind h) := by
    intro h
    rw [← htag h]
    have hheld : (kind h).tag.2 = true := by rw [htag h]
    exact Ledger.latestTag_eq_iff hheld (hchunk h) fun d => Deed.eq_of_tag hheld
  constructor
  · rintro ⟨h, rfl, hlt, hh⟩
    exact ⟨by omega, by omega, (hlast h).mpr hh⟩
  · rintro ⟨hlow, hhigh, hh⟩
    exact ⟨i.toNat, by omega, by omega, (hlast _).mp hh⟩

/-- A handle is held in a state exactly if the deeds give it that tag. -/
theorem Inv.checkHeld (inv : r.Inv depth) (action : PoolAction) (i : Int) (want : ChunkState) :
    r.pool.checkHeld action i want =
      if 0 ≤ i ∧ i < depth ∧ tagOf r.deeds i.toNat = (want, true) then .ok i.toNat
      else .error (.chunkNotHeld action i (found depth r.deeds i)) := by
  unfold Pool.checkHeld found
  by_cases hrange : 0 ≤ i ∧ i < depth
  · have hlt : i.toNat < depth := by omega
    have htag : ((r.pool.slot i.toNat).state, (r.pool.slot i.toNat).held) = tagOf r.deeds i.toNat :=
      inv.tag_eq _ hlt
    have hheld : (r.pool.slot i.toNat).held = true ∧ (r.pool.slot i.toNat).state = want ↔
        tagOf r.deeds i.toNat = (want, true) := by
      rw [← htag, Prod.mk.injEq, and_comm]
    have hinside : ¬ (i < 0 ∨ (r.pool.depth : Int) ≤ i) := by
      rw [inv.depth_eq]
      omega
    simp only [if_neg hinside, hheld, htag, hrange, true_and, and_self, if_true]
  · have houtside : i < 0 ∨ (r.pool.depth : Int) ≤ i := by
      rw [inv.depth_eq]
      omega
    rw [if_pos houtside, if_neg hrange, if_neg (fun hall => hrange ⟨hall.1, hall.2.1⟩)]

/-- Releasing succeeds for the chunk that was fetched last, and otherwise reports its tag. -/
theorem Inv.release_cases (inv : r.Inv depth) (i : Int) :
    LastIs depth r.deeds i .fetched ∧ (∃ p, r.pool.release i = .ok p) ∨
      ¬ LastIs depth r.deeds i .fetched ∧
        r.pool.release i = .error (.chunkNotHeld .release i (found depth r.deeds i)) := by
  unfold Pool.release
  rw [inv.checkHeld, lastIs_iff (fun _ => rfl) fun _ => rfl]
  split
  · rename_i hheld
    exact .inl ⟨hheld, _, rfl⟩
  · rename_i hheld
    exact .inr ⟨hheld, rfl⟩

/-- Publishing succeeds for the chunk that was lent last, as long as neither end has come. -/
theorem Inv.publish_cases (inv : r.Inv depth) (i : Int) :
    LastIs depth r.deeds i .lent ∧ (.sealed ∉ r.deeds ∧ .closed ∉ r.deeds) ∧
        (∃ p, r.pool.publish i = .ok p) ∨
      LastIs depth r.deeds i .lent ∧ ¬ (.sealed ∉ r.deeds ∧ .closed ∉ r.deeds) ∧
        r.pool.publish i = .error .poolClosed ∨
      ¬ LastIs depth r.deeds i .lent ∧
        r.pool.publish i = .error (.chunkNotHeld .publish i (found depth r.deeds i)) := by
  have hends : r.pool.isSealed = true ∨ r.pool.isClosed = true ↔
      ¬ (.sealed ∉ r.deeds ∧ .closed ∉ r.deeds) := by
    rw [inv.sealed_iff, inv.closed_iff, not_and_or, not_not, not_not]
  unfold Pool.publish
  rw [inv.checkHeld, lastIs_iff (fun _ => rfl) fun _ => rfl]
  by_cases hheld : 0 ≤ i ∧ i < depth ∧ tagOf r.deeds i.toNat = (.free, true)
  · rw [if_pos hheld]
    by_cases hend : r.pool.isSealed = true ∨ r.pool.isClosed = true
    · refine .inr (.inl ⟨hheld, hends.mp hend, ?_⟩)
      simp only [bind, Except.bind, if_pos hend]
      rfl
    · refine .inl ⟨hheld, not_not.mp (fun hnot => hend (hends.mpr hnot)), ?_⟩
      simp only [bind, Except.bind, if_neg hend]
      exact ⟨_, rfl⟩
  · rw [if_neg hheld]
    exact .inr (.inr ⟨hheld, rfl⟩)

/-- Which calls succeed, and what the others answer. -/
structure Lawful (depth : Nat) (r : Register) : Prop where
  /-- A chunk is released by the call that may: the pool's ends make no difference. -/
  release_iff : ∀ i, (∃ p, r.pool.release i = .ok p) ↔ LastIs depth r.deeds i .fetched
  publish_iff : ∀ i, (∃ p, r.pool.publish i = .ok p) ↔
    LastIs depth r.deeds i .lent ∧ .sealed ∉ r.deeds ∧ .closed ∉ r.deeds
  alternating : Alternating r.deeds
  /-- A refused call changes nothing, and names what was found instead. -/
  release_error : ∀ i e, r.pool.release i = .error e →
    r.release i = r ∧ e = .chunkNotHeld .release i (found depth r.deeds i)
  publish_error : ∀ i e, r.pool.publish i = .error e → r.publish i = r ∧
    (¬ LastIs depth r.deeds i .lent ∧ e = .chunkNotHeld .publish i (found depth r.deeds i) ∨
      LastIs depth r.deeds i .lent ∧ e = .poolClosed)
  /-- The ends of a pool come once. -/
  finish_again : .sealed ∈ r.deeds → r.pool.finish = r.pool
  close_again : .closed ∈ r.deeds → r.pool.close = r.pool

theorem Inv.lawful (inv : r.Inv depth) : r.Lawful depth where
  release_iff := by
    intro i
    rcases inv.release_cases i with ⟨hlast, hok⟩ | ⟨hlast, herror⟩
    · exact iff_of_true hok hlast
    · simp [herror, hlast]
  publish_iff := by
    intro i
    rcases inv.publish_cases i with ⟨hlast, hends, hok⟩ | ⟨hlast, hends, herror⟩ | ⟨hlast, herror⟩
    · exact iff_of_true hok ⟨hlast, hends⟩
    · exact iff_of_false (by simp [herror]) fun hall => hends hall.2
    · exact iff_of_false (by simp [herror]) fun hall => hlast hall.1
  alternating := inv.alternating
  release_error := by
    intro i e herror
    refine ⟨by simp only [Register.release, herror], ?_⟩
    rcases inv.release_cases i with ⟨-, p, hok⟩ | ⟨-, hanswer⟩
    · cases herror.symm.trans hok
    · exact Except.error.inj (herror.symm.trans hanswer)
  publish_error := by
    intro i e herror
    refine ⟨by simp only [Register.publish, herror], ?_⟩
    rcases inv.publish_cases i with ⟨-, -, p, hok⟩ | ⟨hlast, -, hanswer⟩ | ⟨hlast, hanswer⟩
    · cases herror.symm.trans hok
    · exact .inr ⟨hlast, Except.error.inj (herror.symm.trans hanswer)⟩
    · exact .inl ⟨hlast, Except.error.inj (herror.symm.trans hanswer)⟩
  finish_again := by
    intro hmem
    have hsealed := inv.sealed_iff.mpr hmem
    simp only [Pool.finish, ← hsealed]
  close_again := by
    intro hmem
    have hclosed := inv.closed_iff.mpr hmem
    simp only [Pool.close, ← hclosed]

/-- Whatever calls are made on a new pool, with any handles, the last deed about a chunk says who
may publish or release it, and all other calls fail and leave the pool as it is. -/
theorem lawful_of_reach (depth size : Int) (p : Pool) (hcreate : Pool.create depth size = .ok p)
    (r : Register) (hreach : Reach { pool := p } r) : r.Lawful depth.toNat :=
  ((create_inv hcreate).reach hreach).lawful

/-- Two chunks: chunk 0 was published, in vain a second time, and fetched; chunk 1 was lent, and
then the pool was sealed.  Chunk 0 can still be released; for chunk 1 it is too late. -/
theorem lawful_of_reach_sealed :
    ∃ p r, Pool.create 2 1 = .ok p ∧ Reach { pool := p } r ∧
      r.deeds = [.lent 0, .published 0, .lent 1, .fetched 0, .sealed] ∧ r.Lawful 2 ∧
      (∃ q, r.pool.release 0 = .ok q) ∧ r.pool.publish 1 = .error .poolClosed ∧
      r.publish 1 = r := by
  have hstart := Relation.ReflTransGen.refl (r := Move) (a :=
    { pool := { size := 1, slots := #[{ bytes := [0] }, { bytes := [0] }], free := [0, 1] } })
  have hlent := hstart.trans (reach_acquireFree (h := 0) rfl (List.mem_singleton.mpr rfl))
  have hrefused := (hlent.tail (.publish 0)).tail (.publish 0)
  have hother := hrefused.trans (reach_acquireFree (h := 1) rfl (List.mem_singleton.mpr rfl))
  have hfetched := hother.trans (reach_acquireBusy (h := 0) rfl (List.mem_singleton.mpr rfl))
  have hreach := hfetched.tail .finish
  have hlawful := lawful_of_reach 2 1 _ rfl _ hreach
  exact ⟨_, _, rfl, hreach, rfl, hlawful, (hlawful.release_iff 0).mpr ⟨0, rfl, by decide, rfl⟩, rfl,
    (hlawful.publish_error 1 _ rfl).1⟩

end Register

end Cosim

import Cosim.Exchange
import Cosim.Proofs.Snapshot

/-!
# Who has the snapshot

An exchange circulates one snapshot.  `Exchange.Owned` says where its only
ticket is: in the empty place, with the worker that claimed it, in the full
place, or with the worker that took it.  The four places together hold exactly
one ticket.

No operation checks this; it follows from the order in which each worker uses
the operations.  The lemmas below say what each operation does to the places,
and that neither hand-over ever finds its place taken.
-/

namespace Cosim.Exchange

variable {x x' : Exchange} {claimed taken : Option Ticket} {t : Ticket}

/-- The tickets in the four places: empty, claimed, full, taken. -/
def places (x : Exchange) (claimed taken : Option Ticket) : List Ticket :=
  x.empty.toList ++ claimed.toList ++ x.full.toList ++ taken.toList

/-- The exchange has one snapshot, and its ticket is in one place. -/
structure Owned (x : Exchange) (claimed taken : Option Ticket) : Prop where
  single : x.snapshots.size = 1
  places_eq : x.places claimed taken = [0]

/-! ## Reading and replacing a snapshot -/

theorem snapshot_update (s : Snapshot) (h : t < x.snapshots.size) :
    (x.update t s).snapshot t = s := by
  simp [snapshot, update, Array.getD_eq_getD_getElem?, h]

@[simp] theorem size_update (x : Exchange) (t : Ticket) (s : Snapshot) :
    (x.update t s).snapshots.size = x.snapshots.size := by
  simp [update]

/-- A new exchange has its empty snapshot in the empty place. -/
theorem create_ok {cores : Int} (hlow : 1 ≤ cores) (hhigh : cores ≤ maxCores) :
    ∃ s, Snapshot.create cores = .ok s ∧
      create cores = .ok { snapshots := #[s], empty := some 0 } := by
  have hrange : 1 ≤ cores ∧ cores ≤ maxCores := ⟨hlow, hhigh⟩
  refine ⟨_, if_pos hrange, ?_⟩
  simp only [create, Snapshot.create, if_pos hrange]
  rfl

/-- A snapshot is numbered exactly if it is complete. -/
theorem stamp_ok (h : x.stamp t = .ok x') :
    (x.snapshot t).complete = true ∧ x'.isSealed = x.isSealed := by
  unfold stamp at h
  dsimp only at h
  split at h
  · rename_i hcomplete
    cases h
    exact ⟨hcomplete, rfl⟩
  · cases h

theorem stamp_error {e : Error} (h : x.stamp t = .error e) : (x.snapshot t).complete ≠ true := by
  unfold stamp at h
  dsimp only at h
  split at h
  · cases h
  · assumption

namespace Owned

/-! ## Where the ticket is not -/

theorem of_empty (h : x.Owned claimed taken) (he : x.empty = some t) :
    t = 0 ∧ claimed = none ∧ x.full = none ∧ taken = none := by
  have hp := h.places_eq
  cases claimed <;> cases hf : x.full <;> cases taken <;> simp_all [places]

theorem of_claimed (h : x.Owned (some t) taken) :
    t = 0 ∧ x.empty = none ∧ x.full = none ∧ taken = none := by
  have hp := h.places_eq
  cases he : x.empty <;> cases hf : x.full <;> cases taken <;> simp_all [places]

theorem of_full (h : x.Owned claimed taken) (hf : x.full = some t) :
    t = 0 ∧ x.empty = none ∧ claimed = none ∧ taken = none := by
  have hp := h.places_eq
  cases he : x.empty <;> cases claimed <;> cases taken <;> simp_all [places]

theorem of_taken (h : x.Owned claimed (some t)) :
    t = 0 ∧ x.empty = none ∧ claimed = none ∧ x.full = none := by
  have hp := h.places_eq
  cases he : x.empty <;> cases claimed <;> cases hf : x.full <;> simp_all [places]

/-- A ticket that nobody holds waits in one of the two places. -/
theorem waits (h : x.Owned none none) : x.empty = some 0 ∨ x.full = some 0 := by
  have hp := h.places_eq
  cases he : x.empty <;> cases hf : x.full <;> simp_all [places]

/-! ## What the operations do to the places -/

theorem update (h : x.Owned claimed taken) (t : Ticket) (s : Snapshot) :
    (x.update t s).Owned claimed taken :=
  ⟨by simpa using h.single, h.places_eq⟩

/-- Claiming moves the ticket from the empty place to the claimer. -/
theorem claim (h : x.Owned claimed taken) (hc : x.claim = some (t, x')) :
    t = 0 ∧ x.empty = some 0 ∧ x' = { x with empty := none } ∧ x'.Owned (some 0) taken := by
  unfold Exchange.claim at hc
  cases he : x.empty with
  | none => simp [he] at hc
  | some u =>
    obtain ⟨rfl, rfl, hf, rfl⟩ := h.of_empty he
    simp only [he, Option.map_some, Option.some.injEq, Prod.mk.injEq] at hc
    obtain ⟨rfl, rfl⟩ := hc
    exact ⟨rfl, rfl, rfl, h.single, by simp [places, hf]⟩

/-- The full place has room for a claimed snapshot, unless the exchange is
sealed. -/
theorem offer (h : x.Owned (some t) taken) (ho : x.isSealed = false) :
    x.offer t = .done { x with full := some t } ∧
      { x with full := some t }.Owned none taken := by
  obtain ⟨rfl, he, hf, rfl⟩ := h.of_claimed
  refine ⟨by simp [Exchange.offer, ho, hf], h.single, by simp [places, he]⟩

/-- Taking moves the ticket from the full place to the taker. -/
theorem take_ok (h : x.Owned claimed taken) (ht : x.take = some (.ok t, x')) :
    t = 0 ∧ x.full = some 0 ∧ x' = { x with full := none } ∧ x'.Owned claimed (some 0) := by
  unfold Exchange.take at ht
  cases hf : x.full with
  | none => simp [hf] at ht
  | some u =>
    obtain ⟨rfl, he, rfl, rfl⟩ := h.of_full hf
    simp only [hf] at ht
    split at ht <;> simp only [Option.some.injEq, Prod.mk.injEq, Except.ok.injEq, reduceCtorEq,
      false_and] at ht
    obtain ⟨rfl, rfl⟩ := ht
    exact ⟨rfl, rfl, rfl, h.single, by simp [places, he]⟩

/-- The empty place has room for a snapshot that was taken. -/
theorem giveBack (h : x.Owned claimed (some t)) :
    x.giveBack t = .done { x with empty := some t } ∧
      { x with empty := some t }.Owned claimed none := by
  obtain ⟨rfl, he, rfl, hf⟩ := h.of_taken
  exact ⟨by simp [Exchange.giveBack, he], h.single, by simp [places, hf]⟩

theorem snapshot_update (h : x.Owned claimed taken) (s : Snapshot) :
    (x.update 0 s).snapshot 0 = s :=
  Exchange.snapshot_update s (by simp [h.single])

end Owned

/-! ## Taking and sealing -/

/-- A complete snapshot in the full place is what the next taker gets. -/
theorem take_full (hf : x.full = some t) (hc : (x.snapshot t).complete = true) :
    x.take = some (.ok t, { x with full := none }) := by
  simp [take, hf, hc]

/-- With the full place empty, a taker waits until the exchange is sealed. -/
theorem take_none (hf : x.full = none) :
    x.take = if x.isSealed then some (.error .exchangeSealed, x) else none := by
  simp [take, hf]

/-- An exchange is sealed once. -/
theorem close_eq_ok : x.close = .ok x' ↔ x.isSealed = false ∧ x' = { x with isSealed := true } := by
  cases hsealed : x.isSealed <;> simp [close, hsealed, eq_comm]

end Cosim.Exchange

import Cosim.Proofs.Ownership
import Mathlib.Data.List.Infix
import Mathlib.Logic.Relation

/-!
# The hand-over of snapshots

Two parties share an exchange.  The filler claims the snapshot, files records in
it, publishes it and, at the very end, seals the exchange.  The taker takes what
was published, reads it and drains it.  `Handover.Move` is one step of either
party; both hand-overs are two steps, since the other party may act between
numbering a snapshot and sending it, and between emptying it and sending it
back.

`Handover` also keeps what happened: the records filed since the last claim, the
snapshots published, and what the calls of take returned.

* `Handover.Inv` is the invariant: where the snapshot is decides what it holds.
* `Handover.Safe` collects what both parties may rely on.
* `Handover.safe_of_reach` is the main statement: every order of steps keeps the
  parties safe.
-/

namespace Cosim

/-- Where the filler stands. -/
inductive Filler where
  /-- Holds no snapshot. -/
  | idle
  /-- Has claimed a snapshot. -/
  | filling (t : Ticket)
  /-- Has numbered its snapshot and is about to send it. -/
  | sending (t : Ticket)
  /-- Has sealed the exchange, perhaps with a snapshot in hand. -/
  | gone (kept : Option Ticket)
deriving DecidableEq

/-- Where the taker stands. -/
inductive Taker where
  /-- Holds no snapshot. -/
  | idle
  /-- Has taken a snapshot and reads it. -/
  | reading (t : Ticket)
  /-- Has emptied its snapshot and is about to send it back. -/
  | returning (t : Ticket)
deriving DecidableEq

/-- The ticket that the filler holds. -/
def Filler.ticket : Filler → Option Ticket
  | .idle => none
  | .filling t | .sending t => some t
  | .gone kept => kept

/-- The ticket that the taker holds. -/
def Taker.ticket : Taker → Option Ticket
  | .idle => none
  | .reading t | .returning t => some t

/-- An exchange, its two parties, and what they did. -/
structure Handover where
  exchange : Exchange
  filler : Filler := .idle
  taker : Taker := .idle
  /-- The records filed since the last claim. -/
  puts : List (Nat × CoreState) := []
  /-- The snapshots published, as they were when they were sent. -/
  published : List Snapshot := []
  /-- What the calls of take returned. -/
  takes : List (Except Error Snapshot) := []

namespace Handover

/-- Both parties before their first step. -/
def start (cores : Int) : Except Fault Handover := do
  return { exchange := ← Exchange.create cores }

/-- The snapshots that were taken. -/
def taken (h : Handover) : List Snapshot := h.takes.filterMap Except.toOption

/-- The snapshot that waits to be taken. -/
def pending (h : Handover) : Option Snapshot := h.exchange.full.map h.exchange.snapshot

/-- One step of either party. -/
inductive Move : Handover → Handover → Prop where
  | claim {h t x} (hfiller : h.filler = .idle) (hclaim : h.exchange.claim = some (t, x)) :
      Move h { h with exchange := x, filler := .filling t, puts := [] }
  | put {h t x} (core : Int) (state : CoreState) (hfiller : h.filler = .filling t)
      (hput : h.exchange.put t core state = .ok x) :
      Move h { h with exchange := x, puts := h.puts ++ [(core.toNat, state)] }
  | putRefused {h t e} (core : Int) (state : CoreState) (hfiller : h.filler = .filling t)
      (hput : h.exchange.put t core state = .error e) : Move h h
  | stamp {h t x} (hfiller : h.filler = .filling t) (hstamp : h.exchange.stamp t = .ok x) :
      Move h { h with exchange := x, filler := .sending t }
  | stampRefused {h t e} (hfiller : h.filler = .filling t)
      (hstamp : h.exchange.stamp t = .error e) : Move h h
  | send {h t x} (hfiller : h.filler = .sending t) (hoffer : h.exchange.offer t = .done x) :
      Move h
        { h with
          exchange := x, filler := .idle, published := h.published ++ [x.snapshot t] }
  | close {h x} (hfiller : h.filler = .idle ∨ ∃ t, h.filler = .filling t)
      (hclose : h.exchange.close = .ok x) :
      Move h { h with exchange := x, filler := .gone h.filler.ticket }
  | take {h t x} (htaker : h.taker = .idle) (htake : h.exchange.take = some (.ok t, x)) :
      Move h
        { h with
          exchange := x, taker := .reading t, takes := h.takes ++ [.ok (x.snapshot t)] }
  | takeFailed {h e x} (htaker : h.taker = .idle)
      (htake : h.exchange.take = some (.error e, x)) :
      Move h { h with exchange := x, takes := h.takes ++ [.error e] }
  | reset {h t} (htaker : h.taker = .reading t) :
      Move h { h with exchange := h.exchange.reset t, taker := .returning t }
  | giveBack {h t x} (htaker : h.taker = .returning t)
      (hback : h.exchange.giveBack t = .done x) :
      Move h { h with exchange := x, taker := .idle }

/-- Any number of steps of both parties, in any order. -/
abbrev Reach : Handover → Handover → Prop := Relation.ReflTransGen Move

/-! ## The invariant -/

/-- Where the snapshot is decides what it holds. -/
structure Inv (cores : Nat) (h : Handover) : Prop where
  owned : h.exchange.Owned h.filler.ticket h.taker.ticket
  sealed_iff : h.exchange.isSealed = true ↔ ∃ kept, h.filler = .gone kept
  empty : h.exchange.empty = some 0 → (h.exchange.snapshot 0).Holds cores []
  claimed : h.filler.ticket = some 0 → (h.exchange.snapshot 0).Holds cores h.puts
  sending : h.filler = .sending 0 →
    (h.exchange.snapshot 0).complete = true ∧
      (h.exchange.snapshot 0).seq = .ofNat (h.published.length + 1)
  handed : h.exchange.full = some 0 ∨ h.taker = .reading 0 →
    (h.exchange.snapshot 0).Holds cores h.puts ∧
      (h.exchange.snapshot 0).complete = true ∧
      h.published.getLast? = some (h.exchange.snapshot 0)
  returning : h.taker = .returning 0 → (h.exchange.snapshot 0).Holds cores []
  seq_eq : h.exchange.seq =
    .ofNat (h.published.length + if h.filler = .sending 0 then 1 else 0)
  order : h.taken ++ h.pending.toList = h.published
  numbered : ∀ (k : Nat) (s : Snapshot), h.published[k]? = some s → s.seq = .ofNat (k + 1)
  failed : ∀ e, .error e ∈ h.takes → e = .exchangeSealed

variable {cores : Nat} {h : Handover} {t : Ticket} {x : Exchange}

theorem Inv.not_sealed (inv : h.Inv cores) (hfiller : ∀ kept, h.filler ≠ .gone kept) :
    h.exchange.isSealed = false := by
  rw [← Bool.not_eq_true, inv.sealed_iff]
  rintro ⟨kept, hgone⟩
  exact hfiller kept hgone

/-- A filler that holds the ticket leaves the taker without one. -/
theorem Inv.taker_idle (inv : h.Inv cores) (hfiller : h.filler.ticket = some t) :
    t = 0 ∧ h.taker = .idle ∧ h.exchange.empty = none ∧ h.exchange.full = none := by
  have howned := inv.owned
  rw [hfiller] at howned
  obtain ⟨rfl, hempty, hfull, htaker⟩ := howned.of_claimed
  refine ⟨rfl, ?_, hempty, hfull⟩
  cases hh : h.taker <;> simp_all [Taker.ticket]

/-- What was taken was published, in the same place. -/
theorem Inv.published_of_taken (inv : h.Inv cores) {k : Nat} {s : Snapshot}
    (hk : h.taken[k]? = some s) : h.published[k]? = some s := by
  rw [← inv.order, List.getElem?_append_left (List.getElem?_eq_some_iff.mp hk).1]
  exact hk

/-! ## Steps of the filler -/

theorem Inv.claim (inv : h.Inv cores) (hfiller : h.filler = .idle)
    (hclaim : h.exchange.claim = some (t, x)) :
    { h with exchange := x, filler := .filling t, puts := [] }.Inv cores := by
  obtain ⟨rfl, hempty, rfl, howned⟩ := inv.owned.claim hclaim
  obtain ⟨-, -, hfull, htaker⟩ := inv.owned.of_empty hempty
  have hidle : h.taker = .idle := by cases hh : h.taker <;> simp_all [Taker.ticket]
  have hopen := inv.not_sealed (by simp [hfiller])
  have hseq := inv.seq_eq
  simp only [hfiller, reduceCtorEq, if_false] at hseq
  exact
    { owned := howned
      sealed_iff := by simp [hopen]
      empty := by simp
      claimed := fun _ => inv.empty hempty
      sending := by simp
      handed := by simp [hfull, hidle]
      returning := by simp [hidle]
      seq_eq := by simpa using hseq
      order := inv.order
      numbered := inv.numbered
      failed := inv.failed }

/-- Filing records and numbering only replace the snapshot that the filler
holds. -/
theorem Inv.update (inv : h.Inv cores) (hfiller : h.filler = .filling t) {s : Snapshot}
    {puts : List (Nat × CoreState)} (hs : s.Holds cores puts) :
    { h with exchange := h.exchange.update t s, puts }.Inv cores := by
  obtain ⟨rfl, hidle, hempty, hfull⟩ := inv.taker_idle (t := t) (by simp [hfiller, Filler.ticket])
  have hsame := inv.owned.snapshot_update s
  exact
    { owned := inv.owned.update 0 s
      sealed_iff := inv.sealed_iff
      empty := fun he => by simp [Exchange.update, hempty] at he
      claimed := fun _ => by simpa only [hsame] using hs
      sending := by simp [hfiller]
      handed := by simp [Exchange.update, hfull, hidle]
      returning := by simp [hidle]
      seq_eq := inv.seq_eq
      order := by simpa [pending, taken, Exchange.update, hfull] using inv.order
      numbered := inv.numbered
      failed := inv.failed }

theorem Inv.put (inv : h.Inv cores) {core : Int} {state : CoreState}
    (hfiller : h.filler = .filling t) (hput : h.exchange.put t core state = .ok x) :
    { h with exchange := x, puts := h.puts ++ [(core.toNat, state)] }.Inv cores := by
  obtain ⟨rfl, -⟩ := inv.taker_idle (t := t) (by simp [hfiller, Filler.ticket])
  unfold Exchange.put at hput
  cases hs : (h.exchange.snapshot 0).put core state with
  | error e => simp [hs, bind, Except.bind] at hput
  | ok s =>
    simp only [hs, bind, Except.bind, pure, Except.pure, Except.ok.injEq] at hput
    subst hput
    obtain ⟨-, -, -, hholds⟩ :=
      (inv.claimed (by simp [hfiller, Filler.ticket])).put_ok hs
    exact inv.update hfiller hholds

theorem Inv.stamp (inv : h.Inv cores) (hfiller : h.filler = .filling t)
    (hstamp : h.exchange.stamp t = .ok x) :
    { h with exchange := x, filler := .sending t }.Inv cores := by
  obtain ⟨rfl, hidle, hempty, hfull⟩ := inv.taker_idle (t := t) (by simp [hfiller, Filler.ticket])
  unfold Exchange.stamp at hstamp
  dsimp only at hstamp
  split at hstamp
  · rename_i hcomplete
    cases hstamp
    have hseq := inv.seq_eq
    simp only [hfiller, reduceCtorEq, if_false, Nat.add_zero] at hseq
    have hnext : h.exchange.seq + 1 = .ofNat (h.published.length + 1) := by
      rw [hseq, UInt64.ofNat_add]
      rfl
    have hsame := inv.owned.snapshot_update
      { h.exchange.snapshot 0 with seq := h.exchange.seq + 1 }
    have hholds := (inv.claimed (by simp [hfiller, Filler.ticket])).with_seq (h.exchange.seq + 1)
    have hopen := inv.not_sealed (by simp [hfiller])
    have howned := inv.owned.update 0 { h.exchange.snapshot 0 with seq := h.exchange.seq + 1 }
    rw [hfiller] at howned
    exact
      { owned := ⟨howned.single, howned.places_eq⟩
        sealed_iff := by simp [Exchange.update, hopen]
        empty := by simp [Exchange.update, hempty]
        claimed := fun _ => hsame.symm ▸ hholds
        sending := fun _ => ⟨hsame.symm ▸ hcomplete, hsame.symm ▸ hnext⟩
        handed := by simp [Exchange.update, hfull, hidle]
        returning := by simp [hidle]
        seq_eq := by simpa using hnext
        order := by simpa [pending, taken, Exchange.update, hfull] using inv.order
        numbered := inv.numbered
        failed := inv.failed }
  · cases hstamp

theorem Inv.send (inv : h.Inv cores) (hfiller : h.filler = .sending t)
    (hoffer : h.exchange.offer t = .done x) :
    { h with exchange := x, filler := .idle, published := h.published ++ [x.snapshot t] }.Inv
      cores := by
  obtain ⟨rfl, hidle, hempty, hfull⟩ := inv.taker_idle (t := t) (by simp [hfiller, Filler.ticket])
  have hopen := inv.not_sealed (by simp [hfiller])
  have howned := inv.owned
  simp only [hfiller, Filler.ticket] at howned
  obtain ⟨hdone, howned'⟩ := howned.offer hopen
  rw [hdone] at hoffer
  cases hoffer
  obtain ⟨hcomplete, hnumber⟩ := inv.sending hfiller
  have hseq := inv.seq_eq
  rw [if_pos hfiller] at hseq
  have horder := inv.order
  simp only [pending, hfull, Option.map_none, Option.toList_none, List.append_nil] at horder
  exact
    { owned := howned'
      sealed_iff := by simp [hopen]
      empty := by simp [hempty]
      claimed := by simp [Filler.ticket]
      sending := by simp
      handed := fun _ =>
        ⟨inv.claimed (by simp [hfiller, Filler.ticket]), hcomplete, List.getLast?_concat⟩
      returning := by simp [hidle]
      seq_eq := by simpa using hseq
      order := by simpa [pending, taken] using horder
      numbered := by
        intro k s hk
        rcases Nat.lt_trichotomy k h.published.length with hlt | rfl | hgt
        · rw [List.getElem?_append_left hlt] at hk
          exact inv.numbered k s hk
        · rw [List.getElem?_concat_length, Option.some.injEq] at hk
          exact hk ▸ hnumber
        · rw [List.getElem?_eq_none (by simp; omega)] at hk
          cases hk
      failed := inv.failed }

theorem Inv.close (inv : h.Inv cores)
    (hfiller : h.filler = .idle ∨ ∃ t, h.filler = .filling t)
    (hclose : h.exchange.close = .ok x) :
    { h with exchange := x, filler := .gone h.filler.ticket }.Inv cores := by
  obtain ⟨-, rfl⟩ := Exchange.close_eq_ok.mp hclose
  have hsending : h.filler ≠ .sending 0 := by
    rcases hfiller with hf | ⟨u, hf⟩ <;> simp [hf]
  have hseq := inv.seq_eq
  rw [if_neg hsending] at hseq
  exact
    { owned := ⟨inv.owned.single, inv.owned.places_eq⟩
      sealed_iff := by simp
      empty := inv.empty
      claimed := inv.claimed
      sending := by simp
      handed := inv.handed
      returning := inv.returning
      seq_eq := by simpa using hseq
      order := inv.order
      numbered := inv.numbered
      failed := inv.failed }

/-! ## Steps of the taker -/

theorem Inv.take (inv : h.Inv cores) (htake : h.exchange.take = some (.ok t, x)) :
    { h with
      exchange := x, taker := .reading t, takes := h.takes ++ [Except.ok (x.snapshot t)] }.Inv
      cores := by
  obtain ⟨rfl, hfull, rfl, howned⟩ := inv.owned.take_ok htake
  obtain ⟨-, hempty, -, -⟩ := inv.owned.of_full hfull
  have horder := inv.order
  simp only [taken, pending, hfull, Option.map_some, Option.toList_some] at horder
  exact
    { owned := howned
      sealed_iff := inv.sealed_iff
      empty := by simp [hempty]
      claimed := inv.claimed
      sending := inv.sending
      handed := fun _ => inv.handed (.inl hfull)
      returning := by simp
      seq_eq := inv.seq_eq
      order := by
        simp only [taken, pending, Option.map_none, Option.toList_none, List.append_nil,
          List.filterMap_append]
        exact horder
      numbered := inv.numbered
      failed := fun e he => inv.failed e (by simpa using he) }

/-- A taker that comes back with nothing has found the exchange sealed. -/
theorem Inv.take_error (inv : h.Inv cores) {e : Error}
    (htake : h.exchange.take = some (.error e, x)) :
    e = .exchangeSealed ∧ x = h.exchange ∧ h.exchange.full = none ∧
      h.exchange.isSealed = true := by
  cases hfull : h.exchange.full with
  | some u =>
    obtain ⟨rfl, -⟩ := inv.owned.of_full hfull
    obtain ⟨-, hcomplete, -⟩ := inv.handed (.inl hfull)
    rw [Exchange.take_full hfull hcomplete] at htake
    simp at htake
  | none =>
    rw [Exchange.take_none hfull] at htake
    split at htake
    · simp only [Option.some.injEq, Prod.mk.injEq, Except.error.injEq] at htake
      exact ⟨htake.1.symm, htake.2.symm, rfl, by assumption⟩
    · cases htake

theorem Inv.takeFailed (inv : h.Inv cores) {e : Error}
    (htake : h.exchange.take = some (.error e, x)) :
    { h with exchange := x, takes := h.takes ++ [Except.error e] }.Inv cores := by
  obtain ⟨rfl, rfl, -, -⟩ := inv.take_error htake
  exact
    { inv with
      order := by simpa [taken, pending, List.filterMap_cons, Except.toOption] using inv.order
      failed := by
        intro e he
        rcases List.mem_append.mp he with hold | hnew
        · exact inv.failed e hold
        · simpa using hnew }

theorem Inv.reset (inv : h.Inv cores) (htaker : h.taker = .reading t) :
    { h with exchange := h.exchange.reset t, taker := .returning t }.Inv cores := by
  have howned := inv.owned
  simp only [htaker, Taker.ticket] at howned
  obtain ⟨rfl, hempty, hfiller, hfull⟩ := howned.of_taken
  obtain ⟨hholds, -, -⟩ := inv.handed (.inr htaker)
  have hsame := howned.snapshot_update (h.exchange.snapshot 0).reset
  have hsending : h.filler ≠ .sending 0 := by
    intro hf
    simp [hf, Filler.ticket] at hfiller
  exact
    { owned := howned.update 0 _
      sealed_iff := inv.sealed_iff
      empty := by simp [Exchange.reset, Exchange.update, hempty]
      claimed := by simp [hfiller]
      sending := fun hf => absurd hf hsending
      handed := by simp [Exchange.reset, Exchange.update, hfull]
      returning := fun _ => by
        simpa only [Exchange.reset, hsame] using Snapshot.holds_reset hholds.cores_eq
      seq_eq := inv.seq_eq
      order := by simpa [pending, taken, Exchange.reset, Exchange.update, hfull] using inv.order
      numbered := inv.numbered
      failed := inv.failed }

theorem Inv.giveBack (inv : h.Inv cores) (htaker : h.taker = .returning t)
    (hback : h.exchange.giveBack t = .done x) :
    { h with exchange := x, taker := .idle }.Inv cores := by
  have howned := inv.owned
  simp only [htaker, Taker.ticket] at howned
  obtain ⟨rfl, -, hfiller, hfull⟩ := howned.of_taken
  obtain ⟨hdone, howned'⟩ := howned.giveBack
  rw [hdone] at hback
  cases hback
  exact
    { owned := howned'
      sealed_iff := inv.sealed_iff
      empty := fun _ => inv.returning htaker
      claimed := by simp [hfiller]
      sending := inv.sending
      handed := by simp [hfull]
      returning := by simp
      seq_eq := inv.seq_eq
      order := inv.order
      numbered := inv.numbered
      failed := inv.failed }

/-! ## Runs -/

theorem Inv.move {h' : Handover} (inv : h.Inv cores) (hmove : Move h h') : h'.Inv cores := by
  cases hmove with
  | claim hfiller hclaim => exact inv.claim hfiller hclaim
  | put _ _ hfiller hput => exact inv.put hfiller hput
  | putRefused | stampRefused => exact inv
  | stamp hfiller hstamp => exact inv.stamp hfiller hstamp
  | send hfiller hoffer => exact inv.send hfiller hoffer
  | close hfiller hclose => exact inv.close hfiller hclose
  | take _ htake => exact inv.take htake
  | takeFailed _ htake => exact inv.takeFailed htake
  | reset htaker => exact inv.reset htaker
  | giveBack htaker hback => exact inv.giveBack htaker hback

theorem Inv.reach {h' : Handover} (inv : h.Inv cores) (hreach : Reach h h') : h'.Inv cores := by
  induction hreach with
  | refl => exact inv
  | tail _ hmove ih => exact ih.move hmove

/-- The parties start inside the invariant. -/
theorem start_inv {cores : Int} (hlow : 1 ≤ cores) (hhigh : cores ≤ maxCores) :
    ∃ h, start cores = .ok h ∧ h.Inv cores.toNat := by
  obtain ⟨s, hs, hcreate⟩ := Exchange.create_ok hlow hhigh
  refine ⟨{ exchange := { snapshots := #[s], empty := some 0 } }, ?_, ?_⟩
  · simp only [start, hcreate]
    rfl
  · exact
      { owned := ⟨rfl, rfl⟩
        sealed_iff := by simp
        empty := fun _ => Snapshot.holds_create hs
        claimed := by simp [Filler.ticket]
        sending := by simp
        handed := by simp
        returning := by simp
        seq_eq := rfl
        order := rfl
        numbered := by simp
        failed := by simp }

/-- After the exchange is sealed nothing more is published, the snapshot that
was waiting is taken first, and every take after it finds the exchange sealed. -/
theorem Inv.sealed_reach {h' : Handover} (inv : h.Inv cores)
    (hsealed : h.exchange.isSealed = true) (hreach : Reach h h') :
    h'.exchange.isSealed = true ∧ h'.published = h.published ∧
      (h'.takes = h.takes ∧ h'.pending = h.pending ∨
        h'.pending = none ∧ ∃ n, h'.takes =
          h.takes ++ (h.pending.map Except.ok).toList ++
            List.replicate n (.error .exchangeSealed)) := by
  induction hreach with
  | refl => exact ⟨hsealed, rfl, .inl ⟨rfl, rfl⟩⟩
  | @tail a b hreach hmove ih =>
    obtain ⟨hs, hpub, htakes⟩ := ih
    have inva := inv.reach hreach
    obtain ⟨kept, hgone⟩ := inva.sealed_iff.mp hs
    cases hmove with
    | claim hfiller | put _ _ hfiller | stamp hfiller | send hfiller =>
      simp [hgone] at hfiller
    | putRefused | stampRefused => exact ⟨hs, hpub, htakes⟩
    | close hfiller => simp [hgone] at hfiller
    | @take t x _ htake =>
      obtain ⟨rfl, hfull, rfl, -⟩ := inva.owned.take_ok htake
      refine ⟨hs, hpub, .inr ⟨rfl, 0, ?_⟩⟩
      have hpending : a.pending = some (a.exchange.snapshot 0) := by simp [pending, hfull]
      rcases htakes with ⟨htakes, hsame⟩ | ⟨hnone, -⟩
      · rw [hsame] at hpending
        simp [htakes, hpending]
        rfl
      · simp [hnone] at hpending
    | @takeFailed e x _ htake =>
      obtain ⟨rfl, rfl, hfull, -⟩ := inva.take_error htake
      have hpending : a.pending = none := by simp [pending, hfull]
      refine ⟨hs, hpub, .inr ⟨hpending, ?_⟩⟩
      rcases htakes with ⟨htakes, hsame⟩ | ⟨-, n, htakes⟩
      · refine ⟨1, ?_⟩
        simp [htakes, ← hsame, hpending]
      · refine ⟨n + 1, ?_⟩
        simp [htakes, List.replicate_succ']
    | @reset t htaker =>
      have howned := inva.owned
      simp only [htaker, Taker.ticket] at howned
      obtain ⟨-, -, -, hfull⟩ := howned.of_taken
      have hpending : a.pending = none := by simp [pending, hfull]
      refine ⟨hs, hpub, ?_⟩
      simpa [pending, Exchange.reset, Exchange.update, hfull, hpending] using htakes
    | @giveBack t x htaker hback =>
      have howned := inva.owned
      simp only [htaker, Taker.ticket] at howned
      rw [howned.giveBack.1] at hback
      cases hback
      exact ⟨hs, hpub, htakes⟩

/-! ## What both parties may rely on -/

/-- What both parties may rely on, whatever the other has done so far. -/
structure Safe (cores : Nat) (h : Handover) : Prop where
  /-- The one snapshot is in exactly one of the four places. -/
  one_place : h.exchange.Owned h.filler.ticket h.taker.ticket
  /-- Sending a published snapshot never waits and is never refused. -/
  send_done : ∀ t, h.filler = .sending t → ∃ x, h.exchange.offer t = .done x
  /-- Sending a drained snapshot back never waits. -/
  return_done : ∀ t, h.taker = .returning t → ∃ x, h.exchange.giveBack t = .done x
  /-- A snapshot that is claimed is empty, and all its records are zero. -/
  claim_empty : ∀ t x, h.exchange.claim = some (t, x) →
    (x.snapshot t).cores = cores ∧ (x.snapshot t).filled = 0 ∧
      ∀ core, (x.snapshot t).record core = {}
  /-- A snapshot that is being read is complete, holds the records filed since
  its claim and no others, and is as it was when it was taken. -/
  reading_whole : ∀ t, h.taker = .reading t →
    (h.exchange.snapshot t).complete = true ∧
      (h.exchange.snapshot t).Holds cores h.puts ∧
      h.taken.getLast? = some (h.exchange.snapshot t)
  /-- A take fails only because the exchange is sealed. -/
  take_failure : ∀ e, (.error e ∈ h.takes ∨ ∃ x, h.exchange.take = some (.error e, x)) →
    e = .exchangeSealed
  /-- Snapshots are numbered in the order in which they are published. -/
  published_seq : ∀ (k : Nat) (s : Snapshot), h.published[k]? = some s → s.seq = .ofNat (k + 1)
  /-- Snapshots are numbered in the order in which they are taken. -/
  taken_seq : ∀ (k : Nat) (s : Snapshot), h.taken[k]? = some s → s.seq = .ofNat (k + 1)
  /-- Every published snapshot is taken once, in order, or waits to be. -/
  taken_order : h.taken ++ h.pending.toList = h.published
  /-- Publishing is refused exactly while a core is missing.  The refusal says how
  many have reported, and gives no new exchange: the filler keeps the old one. -/
  publish_refused : ∀ t, h.filler = .filling t →
    if h.puts.length = cores then ∃ x, h.exchange.stamp t = .ok x
    else h.exchange.stamp t = .error (.publishIncomplete h.puts.length cores)
  /-- The exchange is sealed exactly once the filler has sealed it. -/
  sealed_iff : h.exchange.isSealed = true ↔ ∃ kept, h.filler = .gone kept
  /-- A filler that is not in the middle of a publish can seal the exchange, -/
  seal_done : (h.filler = .idle ∨ ∃ t, h.filler = .filling t) → ∃ x, h.exchange.close = .ok x
  /-- and only once. -/
  seal_twice : ∀ kept, h.filler = .gone kept → h.exchange.close = .error .sealTwice
  /-- Once the filler has sealed the exchange a take never waits: the snapshot that is still
  waiting is delivered once, and every later take finds the exchange sealed. -/
  after_seal : ∀ kept, h.filler = .gone kept →
    (h.taker = .idle → h.exchange.take.isSome) ∧
      ∀ h', Reach h h' → h'.published = h.published ∧
        ∃ later, h'.takes = h.takes ++ later ∧
          later <+: (h.pending.map Except.ok).toList ++
            List.replicate later.length (.error .exchangeSealed)

theorem Inv.publish_refused (inv : h.Inv cores) (hfiller : h.filler = .filling t) :
    if h.puts.length = cores then ∃ x, h.exchange.stamp t = .ok x
    else h.exchange.stamp t = .error (.publishIncomplete h.puts.length cores) := by
  obtain ⟨rfl, -⟩ := inv.taker_idle (t := t) (by simp [hfiller, Filler.ticket])
  have hholds := inv.claimed (by simp [hfiller, Filler.ticket])
  split
  · rename_i hlen
    exact ⟨_, if_pos (hholds.complete_iff.mpr hlen)⟩
  · rename_i hlen
    rw [Exchange.stamp, if_neg (mt hholds.complete_iff.mp hlen), hholds.filled_eq, hholds.cores_eq]

theorem Inv.after_seal (inv : h.Inv cores) (hsealed : h.exchange.isSealed = true)
    {h' : Handover} (hreach : Reach h h') :
    h'.published = h.published ∧ ∃ later, h'.takes = h.takes ++ later ∧
      later <+: (h.pending.map Except.ok).toList ++
        List.replicate later.length (.error .exchangeSealed) := by
  obtain ⟨-, hpub, ⟨htakes, -⟩ | ⟨-, n, htakes⟩⟩ := inv.sealed_reach hsealed hreach
  · exact ⟨hpub, [], by simp [htakes]⟩
  · refine ⟨hpub, (h.pending.map Except.ok).toList ++ List.replicate n (.error .exchangeSealed),
      by simpa using htakes, ?_⟩
    refine (List.prefix_append_right_inj _).mpr (List.prefix_replicate_iff.mpr ⟨?_, ?_⟩)
    · simp
    · simp

theorem Inv.safe (inv : h.Inv cores) : h.Safe cores where
  one_place := inv.owned
  send_done := by
    intro t hfiller
    have howned := inv.owned
    simp only [hfiller, Filler.ticket] at howned
    exact ⟨_, (howned.offer (inv.not_sealed (by simp [hfiller]))).1⟩
  return_done := by
    intro t htaker
    have howned := inv.owned
    simp only [htaker, Taker.ticket] at howned
    exact ⟨_, howned.giveBack.1⟩
  claim_empty := by
    intro t x hclaim
    obtain ⟨rfl, hempty, rfl, -⟩ := inv.owned.claim hclaim
    have hholds := inv.empty hempty
    exact ⟨hholds.cores_eq, hholds.filled_eq, hholds.record_of_nil⟩
  reading_whole := by
    intro t htaker
    have howned := inv.owned
    simp only [htaker, Taker.ticket] at howned
    obtain ⟨rfl, -, -, hfull⟩ := howned.of_taken
    obtain ⟨hholds, hcomplete, hlast⟩ := inv.handed (.inr htaker)
    have horder := inv.order
    simp only [pending, hfull, Option.map_none, Option.toList_none, List.append_nil] at horder
    exact ⟨hcomplete, hholds, horder ▸ hlast⟩
  take_failure := by
    rintro e (hold | ⟨x, htake⟩)
    · exact inv.failed e hold
    · exact (inv.take_error htake).1
  published_seq := inv.numbered
  taken_seq := by
    intro k s hk
    have hlt : k < h.taken.length := (List.getElem?_eq_some_iff.mp hk).1
    refine inv.numbered k s ?_
    rw [← inv.order, List.getElem?_append_left hlt]
    exact hk
  taken_order := inv.order
  publish_refused := fun _ => inv.publish_refused
  sealed_iff := inv.sealed_iff
  seal_done := by
    intro hfiller
    have hopen := inv.not_sealed (by rcases hfiller with hf | ⟨u, hf⟩ <;> simp [hf])
    exact ⟨_, Exchange.close_eq_ok.mpr ⟨hopen, rfl⟩⟩
  seal_twice := fun kept hgone => if_pos (inv.sealed_iff.mpr ⟨kept, hgone⟩)
  after_seal := by
    intro kept hgone
    have hsealed := inv.sealed_iff.mpr ⟨kept, hgone⟩
    refine ⟨fun _ => ?_, fun h' => inv.after_seal hsealed⟩
    cases hfull : h.exchange.full with
    | none => simp [Exchange.take_none hfull, hsealed]
    | some u =>
      obtain ⟨rfl, -⟩ := inv.owned.of_full hfull
      obtain ⟨-, hcomplete, -⟩ := inv.handed (.inl hfull)
      simp [Exchange.take_full hfull hcomplete]

/-- Whatever the order of their steps, the two parties stay safe. -/
theorem safe_of_reach (cores : Int) (hlow : 1 ≤ cores) (hhigh : cores ≤ maxCores) :
    ∃ h₀, start cores = .ok h₀ ∧ ∀ h, Reach h₀ h → h.Safe cores.toNat := by
  obtain ⟨h₀, hstart, inv⟩ := start_inv hlow hhigh
  exact ⟨h₀, hstart, fun h hreach => (inv.reach hreach).safe⟩

/-- Two cores report in reverse order, with a record and an early publish refused between
them, and the exchange is sealed while their snapshot waits.  What the taker reads is both
records, and what it finds after them is the seal. -/
theorem safe_of_reach_two_cores :
    ∃ h₀ h₁ h₂ s, start 2 = .ok h₀ ∧ Reach h₀ h₁ ∧ Reach h₀ h₂ ∧
      h₁.filler = .gone none ∧ h₁.taker = .reading 0 ∧
      h₁.puts = [(1, { commit := { valid := true } }), (0, {})] ∧
      h₂.takes = [.ok s, .error .exchangeSealed] ∧ s.seq = 1 ∧ h₁.Safe 2 ∧ h₂.Safe 2 := by
  obtain ⟨h₀, hstart, hsafe⟩ := safe_of_reach 2 (by decide) (by decide)
  have h₀_eq : h₀ = { exchange :=
      { snapshots := #[{ slots := #[none, none] }], empty := some 0 } } :=
    (Except.ok.inj hstart).symm
  have filled₁ := Relation.ReflTransGen.single (Move.claim (h := h₀) (by rw [h₀_eq])
    (by rw [h₀_eq]; rfl))
  rw [h₀_eq] at filled₁ hsafe hstart
  have filled₂ := filled₁.tail (.put 1 { commit := { valid := true } } rfl rfl)
  have refused₁ := filled₂.tail (.putRefused 1 {} rfl rfl)
  have refused₂ := refused₁.tail (.stampRefused rfl rfl)
  have filled₃ := refused₂.tail (.put 0 {} rfl rfl)
  have published := (filled₃.tail (.stamp rfl rfl)).tail (.send rfl rfl)
  have taken := (published.tail (.close (.inl rfl) rfl)).tail (.take rfl rfl)
  have drained := (taken.tail (.reset rfl)).tail (.giveBack rfl rfl)
  have found := drained.tail (.takeFailed rfl rfl)
  exact ⟨_, _, _, _, hstart, taken, found, rfl, rfl, rfl, rfl, rfl, hsafe _ taken, hsafe _ found⟩

end Handover

end Cosim

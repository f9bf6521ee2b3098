import Cosim.Snapshot

/-!
# The snapshot exchange

Two workers share snapshots through an exchange with two places: an empty
snapshot waits in one to be claimed, a full one waits in the other to be taken.
The exchange starts with a single empty snapshot, so the two workers take
turns with it.

Snapshots are named by tickets.  Whoever holds a ticket sees every change made
to its snapshot, also by another holder of the same ticket.

An operation that cannot proceed yields `none`: it has to wait.
-/

namespace Cosim

/-- The name of a snapshot in an exchange. -/
abbrev Ticket := Nat

/-- The two places through which snapshots change hands. -/
structure Exchange where
  /-- The snapshots, by ticket. -/
  snapshots : Array Snapshot
  /-- The ticket that waits to be claimed. -/
  empty : Option Ticket
  /-- The ticket that waits to be taken. -/
  full : Option Ticket := none
  /-- Nothing more will be published. -/
  isSealed : Bool := false
  /-- The number of the last snapshot published. -/
  seq : UInt64 := 0
deriving DecidableEq, Repr, Inhabited

namespace Exchange

/-- An exchange with one empty snapshot, ready to be claimed. -/
def create (cores : Int) : Except Fault Exchange := do
  let snapshot ← Snapshot.create cores
  return { snapshots := #[snapshot], empty := some 0 }

/-- The snapshot of a ticket. -/
def snapshot (x : Exchange) (t : Ticket) : Snapshot :=
  x.snapshots.getD t { slots := #[] }

/-- Replace the snapshot of a ticket. -/
def update (x : Exchange) (t : Ticket) (s : Snapshot) : Exchange :=
  { x with snapshots := x.snapshots.set! t s }

/-- Bring in a snapshot from outside. -/
def adopt (x : Exchange) (s : Snapshot) : Ticket × Exchange :=
  (x.snapshots.size, { x with snapshots := x.snapshots.push s })

/-- Claim the empty snapshot. -/
def claim (x : Exchange) : Option (Ticket × Exchange) :=
  x.empty.map fun t => (t, { x with empty := none })

/-- File the record of one core in a snapshot. -/
def put (x : Exchange) (t : Ticket) (core : Int) (state : CoreState) : Except Error Exchange := do
  let s ← (x.snapshot t).put core state
  return x.update t s

/-- Forget the records of a snapshot. -/
def reset (x : Exchange) (t : Ticket) : Exchange :=
  x.update t (x.snapshot t).reset

/-- Number a complete snapshot, the first step of publishing it. -/
def stamp (x : Exchange) (t : Ticket) : Except Error Exchange :=
  let s := x.snapshot t
  if s.complete then
    let seq := x.seq + 1
    .ok { x.update t { s with seq } with seq }
  else .error (.publishIncomplete s.filled s.cores)

/-- What becomes of a snapshot that is handed over. -/
inductive Delivery where
  /-- It has changed hands. -/
  | done (x : Exchange)
  /-- Its place is taken. -/
  | waits
  /-- The exchange is sealed. -/
  | refused
deriving Repr

/-- Offer a stamped snapshot to the taker, the second step of publishing it. -/
def offer (x : Exchange) (t : Ticket) : Delivery :=
  if x.isSealed then .refused
  else if x.full.isSome then .waits
  else .done { x with full := some t }

/-- Take the full snapshot.  Once the exchange is sealed and its last snapshot
is gone, there is nothing left to wait for. -/
def take (x : Exchange) : Option (Except Error Ticket × Exchange) :=
  match x.full with
  | some t =>
      let rest := { x with full := none }
      if (x.snapshot t).complete then some (.ok t, rest)
      else some (.error .takeIncomplete, rest)
  | none => if x.isSealed then some (.error .exchangeSealed, x) else none

/-- Offer a snapshot to the claimer, the second step of draining it. -/
def giveBack (x : Exchange) (t : Ticket) : Delivery :=
  if x.empty.isSome then .waits else .done { x with empty := some t }

/-- Declare that nothing more will be published. -/
def close (x : Exchange) : Except Fault Exchange :=
  if x.isSealed then .error .sealTwice else .ok { x with isSealed := true }

end Exchange

end Cosim

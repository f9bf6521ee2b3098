import Cosim.Exchange
import Cosim.Reader

/-!
# The assembler

The assembler builds snapshots out of records: it acquires a published chunk,
files its record in the snapshot it is filling, gives the chunk back, and
publishes the snapshot once every core has reported.

Like the reader it is a machine of small steps.  A chunk is given back exactly
once on every path, whether its record is filed or refused.
-/

namespace Cosim

namespace Assembler

/-- Where the assembler stands. -/
inductive Phase where
  /-- Not started. -/
  | idle
  /-- About to look at the stop signal. -/
  | start
  /-- Waits for a published chunk. -/
  | acquire
  /-- Holds a chunk and looks at its core byte. -/
  | inspect (chunk : Nat)
  /-- Waits for an empty snapshot. -/
  | claim (chunk core : Nat)
  /-- Holds a chunk and a snapshot to file its record in. -/
  | unpack (chunk core : Nat)
  /-- Has given the chunk back and files its record. -/
  | file (core : Nat) (state : CoreState)
  /-- Waits for room to hand over a full snapshot. -/
  | deliver
  /-- Has handed over a snapshot. -/
  | count
  /-- Met an error. -/
  | failed (failure : Error)
  /-- Has ended. -/
  | returned (failure : Option Error)
deriving DecidableEq, Repr, Inhabited

end Assembler

/-- The worker that turns chunks into snapshots. -/
structure Assembler where
  /-- The number of cores that records may name. -/
  cores : Int
  phase : Assembler.Phase := .idle
  /-- The snapshot being filled. -/
  current : Option Ticket := none
  /-- The number of snapshots published. -/
  snapshots : UInt64 := 0
deriving DecidableEq, Repr, Inhabited

namespace Assembler

/-- An assembler over a pool, whose chunks must hold one record each. -/
def create (pool : Pool) (cores : Int) : Except Fault Assembler :=
  if pool.size = chunkSize then .ok { cores }
  else .error (.assemblerChunk pool.size chunkSize)

/-- Move on to another phase. -/
def goto (a : Assembler) (phase : Phase) : Assembler := { a with phase }

/-- Give a chunk back and go on to `phase`, or fail if it is not held; `failure` says with
what, given the refusal. -/
def releasing (a : Assembler) (pool : Pool) (x : Exchange) (h : Nat) (phase : Phase)
    (failure : Error → Error) : Assembler × Pool × Exchange :=
  match pool.release h with
  | .ok pool => (a.goto phase, pool, x)
  | .error e => (a.goto (.failed (failure e)), pool, x)

/-- Give a chunk back and fail, whether or not it is held. -/
def giveUp (a : Assembler) (pool : Pool) (x : Exchange) (h : Nat) (failure : Error) :
    Assembler × Pool × Exchange :=
  a.releasing pool x h (.failed failure) fun _ => failure

/-- The states that one step of the assembler can lead to. -/
def next (signals : Signals) (a : Assembler) (pool : Pool) (x : Exchange) :
    List (Assembler × Pool × Exchange) :=
  match a.phase with
  | .idle | .returned _ => []
  | .start =>
      [(a.goto (if signals.running then .acquire else .returned none), pool, x)]
  | .acquire =>
      pool.busyOutcomes.map (fun
        | .error _ => (a.goto (.returned none), pool, x)
        | .ok (h, pool) => (a.goto (.inspect h), pool, x)) ++
      if signals.cancelled then [(a.goto (.returned none), pool, x)] else []
  | .inspect h =>
      let core := ((pool.slot h).bytes.getD recordSize 0).toNat
      if a.cores ≤ core then [a.giveUp pool x h (.coreIndex core a.cores)]
      else [(a.goto (if a.current.isSome then .unpack h core else .claim h core), pool, x)]
  | .claim h core =>
      (match x.claim with
       | some (t, x) => [({ a with phase := .unpack h core, current := some t }, pool, x)]
       | none => []) ++
      if signals.cancelled then [a.giveUp pool x h .cancelled] else []
  | .unpack h core =>
      let state := CoreState.ofBytes ((pool.slot h).bytes.take recordSize)
      [a.releasing pool x h (.file core state) id]
  | .file core state =>
      match a.current with
      | none => []
      | some t =>
        match x.put t core state with
        | .error e => [(a.goto (.failed e), pool, x)]
        | .ok x =>
          match x.stamp t with
          | .ok x => [(a.goto .deliver, pool, x)]
          | .error _ => [(a.goto .start, pool, x)]
  | .deliver =>
      match a.current with
      | none => []
      | some t =>
        match x.offer t with
        | .done x => [({ a with phase := .count, current := none }, pool, x)]
        | .waits | .refused => []
  | .count =>
      [({ a with phase := .start, snapshots := a.snapshots + 1 }, pool, x)]
  | .failed e =>
      [(a.goto (.returned (if signals.cancelled then none else some e)), pool, x)]

/-- The number of steps that the chunks of a pool and the places of an exchange
can keep the assembler busy for before it has to wait. -/
def patience (pool : Pool) : Nat := 8 * (pool.depth + 2)

/-- Let the assembler work until it waits or ends. -/
def settle (signals : Signals) (a : Assembler) (pool : Pool) (x : Exchange) :
    Assembler × Pool × Exchange :=
  go (patience pool) a pool x
where
  go : Nat → Assembler → Pool → Exchange → Assembler × Pool × Exchange
    | 0, a, pool, x => (a, pool, x)
    | fuel + 1, a, pool, x =>
      match next signals a pool x with
      | [] => (a, pool, x)
      | (a, pool, x) :: _ => go fuel a pool x

end Assembler

end Cosim

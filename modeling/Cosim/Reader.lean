import Cosim.Pool
import Cosim.Record
import Cosim.Source

/-!
# The reader

The reader moves the hardware stream into the pool: it acquires a free chunk,
fills it from the source, publishes it, counts it, and starts over.

It is written as a machine of small steps.  `Reader.next` lists the states that
one step can lead to; no state means that the reader waits.  A step that finds
several events ready may answer to any of them, so it has several next states.

The reader ends without an error when it is told to stop, when its context is
cancelled, when the pool closes, and when the stream ends between two records.
It ends with `Error.shortRecord` when the stream ends inside a record, and with
`Error.readFailed` when a read fails.
-/

namespace Cosim

/-- The two signals that workers obey. -/
structure Signals where
  /-- The workers may go on. -/
  running : Bool := true
  /-- The workers' context is cancelled. -/
  cancelled : Bool := false
deriving DecidableEq, Repr, Inhabited

namespace Reader

/-- Where the reader stands. -/
inductive Phase where
  /-- Not started. -/
  | idle
  /-- About to look at the stop signal. -/
  | start
  /-- About to look whether the pool is closed. -/
  | enter
  /-- Waits for a free chunk. -/
  | acquire
  /-- Has read `got` bytes into a chunk. -/
  | fill (chunk got : Nat)
  /-- A read failed after `got` bytes. -/
  | stopped (got : Nat) (how : SourceEnd)
  /-- Has filled a chunk. -/
  | publish (chunk : Nat)
  /-- Has published a chunk. -/
  | count
  /-- Has ended. -/
  | returned (failure : Option Error)
deriving DecidableEq, Repr, Inhabited

end Reader

/-- The worker that fills the pool. -/
structure Reader where
  phase : Reader.Phase := .idle
  /-- The number of records published. -/
  records : UInt64 := 0
deriving DecidableEq, Repr, Inhabited

namespace Reader

/-- How the end of the stream after `got` bytes of a record is reported. -/
def verdict (got want : Nat) (records : UInt64) : SourceEnd → Option Error
  | .finished => if got = 0 then none else some (.shortRecord got want records)
  | .finishedBy _ => none
  | .truncatedBy _ => some (.shortRecord got want records)
  | .failed reason => some (.readFailed reason)

/-- Move on to another phase. -/
def goto (r : Reader) (phase : Phase) : Reader := { r with phase }

/-- The states that one step of the reader can lead to. -/
def next (signals : Signals) (r : Reader) (source : Source) (pool : Pool) :
    List (Reader × Source × Pool) :=
  match r.phase with
  | .idle | .returned _ => []
  | .start =>
      [(r.goto (if signals.running then .enter else .returned none), source, pool)]
  | .enter =>
      [(r.goto (if pool.isClosed then .returned none else .acquire), source, pool)]
  | .acquire =>
      pool.freeOutcomes.map (fun
        | .error _ => (r.goto (.returned none), source, pool)
        | .ok (h, pool) => (r.goto (.fill h 0), source, pool)) ++
      if signals.cancelled then [(r.goto (.returned none), source, pool)] else []
  | .fill h got =>
      if pool.size ≤ got then [(r.goto (.publish h), source, pool)]
      else
        match source.read (pool.size - got) with
        | none => []
        | some (.bytes data source) =>
            [(r.goto (.fill h (got + data.length)), source, pool.write h got data)]
        | some (.stopped how) => [(r.goto (.stopped got how), source, pool)]
  | .stopped got how =>
      let failure := if signals.running then verdict got pool.size r.records how else none
      [(r.goto (.returned failure), source, pool)]
  | .publish h =>
      match pool.publish h with
      | .ok pool => [(r.goto .count, source, pool)]
      | .error .poolClosed => [(r.goto (.returned none), source, pool)]
      | .error e => [(r.goto (.returned (some e)), source, pool)]
  | .count => [({ phase := .start, records := r.records + 1 }, source, pool)]

/-- The number of steps that a pool with so many chunks of that size can keep
the reader busy for before it has to wait. -/
def patience (pool : Pool) : Nat := (pool.depth + 2) * (pool.size + 8)

/-- Let the reader work until it waits or ends. -/
def settle (signals : Signals) (r : Reader) (source : Source) (pool : Pool) :
    Reader × Source × Pool :=
  go (patience pool) r source pool
where
  go : Nat → Reader → Source → Pool → Reader × Source × Pool
    | 0, r, source, pool => (r, source, pool)
    | fuel + 1, r, source, pool =>
      match next signals r source pool with
      | [] => (r, source, pool)
      | (r, source, pool) :: _ => go fuel r source pool

end Reader

end Cosim

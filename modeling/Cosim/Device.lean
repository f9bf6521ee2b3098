import Cosim.Assembler

/-!
# The device

A device ties a source, a pool and an exchange together with the two workers
that move records from one to the next.

`Device.next` lists every state that one step of either worker can lead to, so
a schedule of the workers is a path through `next`.  A worker that has returned
takes two more steps: it seals the queue it was feeding, then reports the error
it ended with, if any.  Sealing an exchange twice is a fault, and a worker that
runs into one has no next state.

`Device.settle` runs the workers until both wait or are done.
-/

namespace Cosim

/-- What a worker still has to do after it has returned. -/
inductive Exit where
  /-- It has not sealed its queue yet. -/
  | pending
  /-- It has sealed its queue and still has to report. -/
  | closing
  /-- It is done. -/
  | done
deriving DecidableEq, Repr, Inhabited

/-- Source, pool, exchange and the workers between them. -/
structure Device where
  source : Source
  pool : Pool
  exchange : Exchange
  reader : Reader := {}
  assembler : Assembler
  signals : Signals := { running := false }
  readerExit : Exit := .pending
  assemblerExit : Exit := .pending
  /-- The workers have been started. -/
  started : Bool := false
  /-- The device has been stopped. -/
  stopped : Bool := false
  /-- The context that the device is started with is cancelled. -/
  abandoned : Bool := false
  /-- How closing the source fails, if it does. -/
  closeFailure : Option String := none
  /-- The errors the workers reported, in order. -/
  failures : List Error := []
deriving Repr, Inhabited

namespace Device

/-- A device over a source, for so many cores and with a pool of that depth. -/
def create (source : Source) (cores depth : Int) : Except Fault Device := do
  if depth < 1 then throw (.deviceDepth depth)
  let pool ← Pool.create depth chunkSize
  let exchange ← Exchange.create cores
  let assembler ← Assembler.create pool cores
  return { source, pool, exchange, assembler }

/-- The states that one step of the reader can lead to. -/
def readerNext (d : Device) : List Device :=
  match d.reader.phase with
  | .returned failure =>
    match d.readerExit with
    | .pending => [{ d with pool := d.pool.finish, readerExit := .closing }]
    | .closing => [{ d with failures := d.failures ++ failure.toList, readerExit := .done }]
    | .done => []
  | _ =>
    (d.reader.next d.signals d.source d.pool).map fun (reader, source, pool) =>
      { d with reader, source, pool }

/-- The states that one step of the assembler can lead to. -/
def assemblerNext (d : Device) : List Device :=
  match d.assembler.phase with
  | .returned failure =>
    match d.assemblerExit with
    | .pending =>
      match d.exchange.close with
      | .ok exchange => [{ d with exchange, assemblerExit := .closing }]
      | .error _ => []
    | .closing => [{ d with failures := d.failures ++ failure.toList, assemblerExit := .done }]
    | .done => []
  | _ =>
    (d.assembler.next d.signals d.pool d.exchange).map fun (assembler, pool, exchange) =>
      { d with assembler, pool, exchange }

/-- The states that one step of either worker can lead to. -/
def next (d : Device) : List Device := d.readerNext ++ d.assemblerNext

/-- One step of the reader if it can move, else of the assembler. -/
def advance (d : Device) : Option Device :=
  d.readerNext.head? <|> d.assemblerNext.head?

/-- The number of steps that the workers can take before both have to wait:
every byte in the queue is read at most once, each chunk is filled at most once
more for every record that the snapshots at hand can absorb. -/
def patience (d : Device) : Nat :=
  (d.pool.depth + 2 * maxCores + 4) * (d.pool.size + 24) + 2 * d.source.queue.length

/-- Let the workers run until both wait or are done. -/
def settle (d : Device) : Device := go d.patience d
where
  go : Nat → Device → Device
    | 0, d => d
    | fuel + 1, d =>
      match d.advance with
      | none => d
      | some d => go fuel d

/-- Start the workers. -/
def start (d : Device) : Device :=
  if d.started then d
  else
    { d with
      started := true
      signals := { running := true, cancelled := d.abandoned }
      reader := { d.reader with phase := .start }
      assembler := { d.assembler with phase := .start } }

/-- Cancel the context that the device is started with. -/
def abandon (d : Device) : Device :=
  { d with
    abandoned := true
    signals := if d.started then { d.signals with cancelled := true } else d.signals }

/-- The actions that stop a device, in the order in which they are taken. -/
inductive Halt where
  /-- Tell the workers that the device no longer runs. -/
  | lower
  /-- Close the source. -/
  | closeSource
  /-- Close the pool. -/
  | closePool
  /-- Cancel the context of the workers, if they have one. -/
  | cancel
deriving DecidableEq, Repr, Inhabited

/-- Take one of the actions that stop a device.  The workers may take steps
between one action and the next. -/
def halt (d : Device) : Halt → Device
  | .lower => { d with signals := { d.signals with running := false } }
  | .closeSource => { d with source := d.source.close }
  | .closePool => { d with pool := d.pool.close }
  | .cancel =>
    { d with signals := { d.signals with cancelled := d.signals.cancelled || d.started } }

/-- Stop the workers and close the source.  The first call says how closing the
source failed; later calls do nothing. -/
def stop (d : Device) : Device × Option Error :=
  if d.stopped then (d, none)
  else
    ([Halt.lower, .closeSource, .closePool, .cancel].foldl halt { d with stopped := true },
      d.closeFailure.map .text)

end Device

end Cosim

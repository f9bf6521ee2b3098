/-!
# Hardware byte sources

A source is a queue of bytes that the hardware fills.  A read takes bytes from
the front; when the queue is empty it waits, unless the source has come to an
end.  A closed source fails every read, whatever it still holds.
-/

namespace Cosim

/-- How a source ends, once its bytes are used up. -/
inductive SourceEnd where
  /-- The regular end of the stream. -/
  | finished
  /-- A failure that counts as the regular end. -/
  | finishedBy (reason : String)
  /-- A failure that counts as an end inside a record. -/
  | truncatedBy (reason : String)
  /-- Any other failure. -/
  | failed (reason : String)
deriving DecidableEq, Repr, Inhabited

/-- What follows the bytes in the queue. -/
inductive SourceTail where
  /-- More bytes may come. -/
  | opened
  /-- Zero bytes without end. -/
  | zeros
  /-- The source is at its end. -/
  | ended (how : SourceEnd)
deriving DecidableEq, Repr, Inhabited

/-- A stream of bytes from the hardware. -/
structure Source where
  queue : List UInt8 := []
  tail : SourceTail := .opened
  /-- The most bytes that one read returns; zero means no limit. -/
  maxRead : Nat := 0
  isClosed : Bool := false
deriving DecidableEq, Repr, Inhabited

namespace Source

/-- What one read gives. -/
inductive Chunk where
  | bytes (data : List UInt8) (rest : Source)
  | stopped (how : SourceEnd)
deriving DecidableEq, Repr

/-- Append bytes. -/
def feed (s : Source) (data : List UInt8) : Source := { s with queue := s.queue ++ data }

/-- Bring the source to its end. -/
def finish (s : Source) (how : SourceEnd) : Source := { s with tail := .ended how }

/-- Close the source. -/
def close (s : Source) : Source := { s with isClosed := true }

/-- Read at most `want` bytes; `none` means that the read has to wait. -/
def read (s : Source) (want : Nat) : Option Chunk :=
  if s.isClosed then some (.stopped (.failed "file already closed"))
  else
    let limit := if s.maxRead = 0 then want else min want s.maxRead
    match s.queue with
    | [] =>
      match s.tail with
      | .opened => none
      | .zeros => some (.bytes (List.replicate limit 0) s)
      | .ended how => some (.stopped how)
    | _ :: _ => some (.bytes (s.queue.take limit) { s with queue := s.queue.drop limit })

end Source

end Cosim

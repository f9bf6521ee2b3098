import Cosim.Text.Quoted

/-!
# Errors

Every failure that a run, a configuration or a stream can end in, as a cause
and not as a text.  `Error.message` gives the wording, in one place.

Two constructors nest: `within` adds the place where an error was met, and
`fatal` marks an error that ended a run.
-/

namespace Cosim

/-- The state of a pool chunk: it waits to be filled, or it holds a record. -/
inductive ChunkState where
  | free
  | busy
deriving DecidableEq, Repr, Inhabited

namespace ChunkState

/-- The name of a chunk state by its code. -/
def nameOfCode (code : UInt8) : String :=
  if code = 0 then "free"
  else if code = 1 then "busy"
  else s!"ChunkState({code.toNat})"

/-- The code a state is stored as. -/
def code : ChunkState → UInt8
  | .free => 0
  | .busy => 1

/-- The name of a chunk state. -/
def name (s : ChunkState) : String := nameOfCode s.code

end ChunkState

/-- The two ways to give a chunk back to a pool. -/
inductive PoolAction where
  | publish
  | release
deriving DecidableEq, Repr, Inhabited

/-- Why the host refused to open or read a path. -/
inductive HostReason where
  | notExist
  | notDirectory
  | isDirectory
deriving DecidableEq, Repr, Inhabited

/-- Why a numeral was refused. -/
inductive NumeralReason where
  | syntaxError
  | outOfRange
deriving DecidableEq, Repr, Inhabited

/-- What is wrong with a configuration. -/
inductive ConfigProblem where
  | noImage
  | cores (got : Int)
  | poolDepth (want got : Int)
  | stepBatch (got : Int)
  | traceLevel (given : String)
  | logLevel (given : String)
deriving DecidableEq, Repr, Inhabited

/-- Failures that a correct program has to expect. -/
inductive Error where
  /-- A record of the wrong length. -/
  | recordSize (got : Nat)
  /-- A core index outside a snapshot. -/
  | coreRange (core : Int) (cores : Nat)
  /-- A second record for a core that the snapshot already holds. -/
  | duplicateCore (core : Nat)
  /-- A snapshot published before every core reported. -/
  | publishIncomplete (filled cores : Nat)
  /-- A snapshot taken although some core has not reported. -/
  | takeIncomplete
  /-- An exchange that will deliver nothing more. -/
  | exchangeSealed
  /-- A chunk given back by someone who does not hold it; `none` when no such
  chunk exists. -/
  | chunkNotHeld (action : PoolAction) (handle : Int) (found : Option (ChunkState × Bool))
  /-- A pool that hands out nothing more. -/
  | poolClosed
  /-- A stream that stopped inside a record. -/
  | shortRecord (got want : Nat) (records : UInt64)
  /-- A read of the hardware stream that failed. -/
  | readFailed (reason : String)
  /-- A record that names a core the run does not have. -/
  | coreIndex (core : Nat) (cores : Int)
  /-- A path that cannot carry a hardware stream; `mode` is its file mode. -/
  | notStream (mode : Nat)
  /-- The hardware stream ran dry after so many snapshots. -/
  | streamEnded (snapshots : UInt64)
  /-- The design and the reference disagree. -/
  | mismatch (step : UInt64)
  /-- The design stopped with a code other than success. -/
  | trapCode (code : Int)
  /-- An error that ended the run, met in a step or reported from outside. -/
  | fatal (step : Option UInt64) (cause : Error)
  /-- No way to open a reference model is known. -/
  | noReference
  /-- A reference model in the form of a shared object. -/
  | sharedObject (path : String)
  /-- A golden record that names a core the run does not have. -/
  | goldenCore (core : Nat) (cores : Int)
  /-- The input ended inside a record. -/
  | unexpectedEnd
  /-- The input ended before it began. -/
  | endOfInput
  /-- The caller gave up. -/
  | cancelled
  /-- The host refused an action on a path. -/
  | host (action path : String) (reason : HostReason)
  /-- A numeral that could not be read; `reader` names the rule it broke. -/
  | numeral (reader text : String) (reason : NumeralReason)
  /-- A configuration that no run can start with. -/
  | invalidConfig (problem : ConfigProblem)
  /-- A document that does not follow its format's grammar. -/
  | malformed (message : String)
  /-- An error known by its text alone. -/
  | text (message : String)
  /-- An error and the place where it was met. -/
  | within (place : String) (inner : Error)
deriving DecidableEq, Repr, Inhabited

/-- How the host words a refusal. -/
def HostReason.message : HostReason → String
  | .notExist => "no such file or directory"
  | .notDirectory => "not a directory"
  | .isDirectory => "is a directory"

/-- How a refused numeral is worded. -/
def NumeralReason.message : NumeralReason → String
  | .syntaxError => "invalid syntax"
  | .outOfRange => "value out of range"

/-- The verb of a pool action. -/
def PoolAction.verb : PoolAction → String
  | .publish => "publish"
  | .release => "release"

/-- A number in octal, marked by a leading zero. -/
def octal (n : Nat) : String := "0" ++ String.ofList (Nat.toDigits 8 n)

/-- How a problem of a configuration is worded. -/
def ConfigProblem.message : ConfigProblem → String
  | .noImage => "workload image not provided"
  | .cores got => s!"cores must be in [1, 64], got {got}"
  | .poolDepth want got => s!"pool depth must be at least cores+1 ({want}), got {got}"
  | .stepBatch got => s!"step batch must be >= 1, got {got}"
  | .traceLevel given => s!"unknown trace level {Text.quoted given}"
  | .logLevel given => s!"invalid log level {Text.quoted given}"

/-- The text of an error. -/
def Error.message : Error → String
  | .recordSize got => s!"diffstate: wrong record size: got {got} bytes, want 296"
  | .coreRange core cores => s!"diffstate: core index out of range: {core} not in [0, {cores})"
  | .duplicateCore core => s!"diffstate: duplicate core index in snapshot: core {core}"
  | .publishIncomplete filled cores =>
      s!"publish: diffstate: snapshot incomplete ({filled} of {cores} cores)"
  | .takeIncomplete => "take: diffstate: snapshot incomplete"
  | .exchangeSealed => "diffstate: exchange sealed"
  | .chunkNotHeld action handle none =>
      s!"{action.verb} chunk {handle}: mpool: chunk not held by caller: handle out of range"
  | .chunkNotHeld action handle (some (state, held)) =>
      s!"{action.verb} chunk {handle}: mpool: chunk not held by caller: " ++
        s!"state={state.name} held={held}"
  | .poolClosed => "mpool: pool closed"
  | .shortRecord got want records =>
      s!"xdma: short record: got {got} of {want} bytes after {records.toNat} records"
  | .readFailed reason => s!"xdma: read: {reason}"
  | .coreIndex core cores => s!"xdma: core index out of range: {core} with {cores} cores"
  | .notStream mode =>
      s!"xdma: not a character device, fifo or regular file (mode {octal mode})"
  | .streamEnded n => s!"difftest: hardware stream ended after {n.toNat} snapshots"
  | .mismatch step => s!"sim: difftest mismatch at step {step.toNat}"
  | .trapCode code => s!"sim: unknown trap code: {code}"
  | .fatal none cause => s!"sim: fatal error: {cause.message}"
  | .fatal (some step) cause => s!"sim: fatal error: step {step.toNat}: {cause.message}"
  | .noReference => "sim: no reference proxy registered"
  | .sharedObject path =>
      s!"refproxy: shared-object reference models are not supported: {path}"
  | .goldenCore core cores => s!"core index {core} with {cores} cores"
  | .unexpectedEnd => "unexpected EOF"
  | .endOfInput => "EOF"
  | .cancelled => "context canceled"
  | .host action path reason => s!"{action} {path}: {reason.message}"
  | .numeral reader given reason => s!"{reader}: parsing {Text.quoted given}: {reason.message}"
  | .invalidConfig problem => problem.message
  | .malformed message => message
  | .text message => message
  | .within place inner => s!"{place}: {inner.message}"

end Cosim

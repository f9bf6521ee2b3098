import Cosim.Flag
import Cosim.Snapshot
import Cosim.Trace
import Cosim.Yaml.Schema

/-!
# Run configuration

Everything that a run needs to know.  A configuration is made in three layers:
the defaults, the settings of a file, and the settings of the command line.
Each layer is a list of settings, and a later setting of a field replaces an
earlier one.

`Config.resolve` lays the layers over each other, fills in the depth of the
pool if none is given, and checks the result.  A setting of the command line
gets into the configuration as its flag shows it, and is read from that again.
-/

namespace Cosim

/-- What a run is told. -/
structure Config where
  /-- The workload image or device that the hardware state is read from. -/
  image : String := "/dev/zero"
  /-- The golden trace to compare with. -/
  diff : String := ""
  /-- Do not compare. -/
  noDiff : Bool := false
  /-- The instruction ceiling of each core; zero means none. -/
  maxInstrs : UInt64 := 0
  cores : Int := 1
  /-- The depth of the chunk pool; zero asks for one more than the cores. -/
  poolDepth : Int := 0
  /-- The number of steps asked for at a time. -/
  stepBatch : Int := 1
  flash : String := ""
  sdcard : String := ""
  traceLevel : String := "none"
  /-- Where the report is written. -/
  report : String := ""
  log : String := "info"
  statsview : String := ""
deriving DecidableEq, Repr, Inhabited

/-- One field of a configuration with its value. -/
inductive Setting where
  | image (value : String)
  | diff (value : String)
  | noDiff (value : Bool)
  | maxInstrs (value : UInt64)
  | cores (value : Int)
  | poolDepth (value : Int)
  | stepBatch (value : Int)
  | flash (value : String)
  | sdcard (value : String)
  | traceLevel (value : String)
  | report (value : String)
  | log (value : String)
  | statsview (value : String)
deriving DecidableEq, Repr, Inhabited

namespace Setting

/-- The name of the flag that gives a setting. -/
def flagName : Setting → String
  | .image _ => "image"
  | .diff _ => "diff"
  | .noDiff _ => "no-diff"
  | .maxInstrs _ => "max-instrs"
  | .cores _ => "cores"
  | .poolDepth _ => "pool-depth"
  | .stepBatch _ => "step-batch"
  | .flash _ => "flash"
  | .sdcard _ => "sdcard"
  | .traceLevel _ => "trace-level"
  | .report _ => "report"
  | .log _ => "log"
  | .statsview _ => "statsview"

/-- The value of a setting, as its flag shows it. -/
def shown : Setting → String
  | .noDiff value => if value then "true" else "false"
  | .maxInstrs value => Text.hex value
  | .cores value | .poolDepth value | .stepBatch value => toString value
  | .image value | .diff value | .flash value | .sdcard value | .traceLevel value
  | .report value | .log value | .statsview value => value

end Setting

namespace Config

/-- Replace one field. -/
def set (c : Config) : Setting → Config
  | .image value => { c with image := value }
  | .diff value => { c with diff := value }
  | .noDiff value => { c with noDiff := value }
  | .maxInstrs value => { c with maxInstrs := value }
  | .cores value => { c with cores := value }
  | .poolDepth value => { c with poolDepth := value }
  | .stepBatch value => { c with stepBatch := value }
  | .flash value => { c with flash := value }
  | .sdcard value => { c with sdcard := value }
  | .traceLevel value => { c with traceLevel := value }
  | .report value => { c with report := value }
  | .log value => { c with log := value }
  | .statsview value => { c with statsview := value }

/-- Lay settings over a configuration, one after the other. -/
def overlay (c : Config) (settings : List Setting) : Config := settings.foldl set c

/-- Give the pool its depth, if none was asked for.  Integers are 64 bits wide. -/
def fillPoolDepth (c : Config) : Config :=
  if c.poolDepth = 0 then { c with poolDepth := (c.cores + 1).bmod (Nat.pow 2 64) } else c

/-- The lower case of a character, as far as names of levels can have it: the
letters of ASCII, and the dotted capital I. -/
private def lower (c : Char) : Char := if c.toNat = 0x130 then 'i' else c.toLower

/-- The text names a log level, in any case. -/
def isLogLevel (level : String) : Bool :=
  ["panic", "fatal", "error", "warn", "warning", "info", "debug", "trace"].contains
    (String.ofList (level.toList.map lower))

/-- The first problem of a configuration, if it has one. -/
def problem? (c : Config) : Option ConfigProblem :=
  if c.image = "" then some .noImage
  else if c.cores < 1 ∨ maxCores < c.cores then some (.cores c.cores)
  else if c.poolDepth < c.cores + 1 then some (.poolDepth (c.cores + 1) c.poolDepth)
  else if c.stepBatch < 1 then some (.stepBatch c.stepBatch)
  else if !Trace.isValidLevel c.traceLevel then some (.traceLevel c.traceLevel)
  else if !isLogLevel c.log then some (.logLevel c.log)
  else none

/-- Refuse a configuration that no run can start with. -/
def validate (c : Config) : Except Error Unit :=
  match c.problem? with
  | some p => .error (.invalidConfig p)
  | none => .ok ()

/-! ## Settings in a file -/

/-- The keys of a configuration file. -/
def schema : Yaml.Schema Setting where
  typeName := "cmd.RunConfig"
  fields :=
    [ ("image", .text .image), ("diff", .text .diff), ("no_diff", .bool .noDiff)
    , ("max_instrs", .hex .maxInstrs), ("cores", .int .cores), ("pool_depth", .int .poolDepth)
    , ("step_batch", .int .stepBatch), ("flash", .text .flash), ("sdcard", .text .sdcard)
    , ("trace_level", .text .traceLevel), ("report", .text .report), ("log", .text .log)
    , ("statsview", .text .statsview) ]

/-- The settings that a text holds.  A text without a document is refused. -/
def settingsOfText (text : String) : Except Error (List Setting) :=
  match schema.read text with
  | .error e => .error e
  | .ok none => .error .endOfInput
  | .ok (some settings) => .ok settings

/-! ## Settings on the command line -/

/-- What a flag of the command that starts a run gives. -/
inductive RunFlag where
  | setting (value : Setting)
  /-- The path of a configuration file. -/
  | file (path : String)
  /-- Help is asked for. -/
  | help (wanted : Bool)
deriving DecidableEq, Repr, Inhabited

/-- A flag that takes any text. -/
def textFlag (name : String) (make : String → Setting) (letter : Option Char := none) :
    Flag RunFlag :=
  { name, letter, read := Flag.readText (.setting ∘ make) }

/-- A flag that takes an integer. -/
def intFlag (name : String) (make : Int → Setting) : Flag RunFlag :=
  { name, read := Flag.readInt (.setting ∘ make) }

/-- The flags of the command that starts a run. -/
def flags : List (Flag RunFlag) :=
  [ textFlag "image" .image 'i'
  , textFlag "diff" .diff
  , { name := "no-diff", implied := "true", read := Flag.readBool (.setting ∘ .noDiff) }
  , { name := "max-instrs", read := Flag.readHex (.setting ∘ .maxInstrs) }
  , intFlag "cores" .cores
  , intFlag "pool-depth" .poolDepth
  , intFlag "step-batch" .stepBatch
  , textFlag "flash" .flash
  , textFlag "sdcard" .sdcard
  , textFlag "trace-level" .traceLevel
  , textFlag "report" .report
  , textFlag "log" .log
  , textFlag "statsview" .statsview
  , { name := "config", read := Flag.readText .file } ]

/-- The settings among the values of flags. -/
def settingsOf (values : List RunFlag) : List Setting :=
  values.filterMap fun
    | .setting s => some s
    | _ => none

/-- The configuration file that flags name last, empty if they name none. -/
def fileOf (values : List RunFlag) : String :=
  ((values.filterMap fun
    | .file path => some path
    | _ => none).getLast?).getD ""

/-! ## Layers -/

/-- Set the flag of a setting's name from what the setting shows. -/
def copyFlag (c : Config) (s : Setting) : Except Error Config :=
  match flags.find? (·.name == s.flagName) with
  | none => .ok c
  | some f =>
    match f.read s.shown with
    | .ok (.setting s) => .ok (c.set s)
    | .ok _ => .ok c
    | .error e =>
      let place := s!"invalid argument {Text.quoted s.shown} for {Text.quoted f.title} flag"
      .error (.within s!"flag --{f.name}" (.within place e))

/-- The settings that count where flags are given again. -/
def lastGiven : List Setting → List Setting
  | [] => []
  | s :: rest =>
    if rest.any (·.flagName == s.flagName) then lastGiven rest else s :: lastGiven rest

/-- The configuration of a file's settings and a command line's settings. -/
def resolve (file flags : List Setting) : Except Error Config := do
  let layered ← (lastGiven flags).foldlM copyFlag (({} : Config).overlay file)
  let c := layered.fillPoolDepth
  c.validate
  return c

end Config

end Cosim

import Cosim.Supervisor

/-!
# The command line

The program has two commands: `run` supervises a run, and `version` prints the
version.  `CommandLine.execute` says what a list of arguments leads to: what is
printed, how the program exits, and which files it leaves behind.
-/

namespace Cosim.CommandLine

/-- The name of the program. -/
def program : String := "simv"

/-- The version that the program reports. -/
def version : String := "dev"

/-- What a call of the program leads to. -/
structure Result where
  exit : Int := 0
  stdout : String := ""
  /-- The error that the call ends with. -/
  failure : Option String := none
  /-- The file that was written, with its text. -/
  written : Option (String × String) := none
  /-- The files after the call. -/
  files : Files
deriving Inhabited

/-- The commands. -/
inductive Command where
  /-- No command is named. -/
  | root
  | run
  | version
deriving DecidableEq, Repr, Inhabited

/-- The command of a name. -/
def Command.ofName? (name : String) : Option Command :=
  if name == "run" then some .run
  else if name == "version" then some .version
  else none

/-- The flag takes its value from the next argument, as far as can be told
without knowing the command. -/
private def takesNext (arg : String) : Bool :=
  let cs := arg.toList
  !cs.contains '=' && (['-', '-'].isPrefixOf cs || (cs.head? == some '-' && cs.length == 2)) &&
  !(["--help", "-h"].contains arg)

/-- Find the first argument that is no flag and no value of one.  It is returned
with the other arguments. -/
private def firstWord (before : List String) : Nat → List String → Option (String × List String)
  | 0, _ => none
  | _, [] => none
  | fuel + 1, arg :: rest =>
    if arg == "--" then none
    else if takesNext arg then
      match rest with
      | value :: next :: rest => firstWord (before ++ [arg, value]) fuel (next :: rest)
      | _ => none
    else if arg == "" || arg.startsWith "-" then firstWord (before ++ [arg]) fuel rest
    else some (arg, before ++ rest)

/-- The flag that asks for help, which every command has. -/
def helpFlag : Flag Config.RunFlag :=
  { name := "help", letter := 'h', implied := "true", read := Flag.readBool .help }

private def wantsHelp (values : List Config.RunFlag) : Bool :=
  ((values.filterMap fun
    | .help wanted => some wanted
    | _ => none).getLast?).getD false

private def failed (files : Files) (message : String) : Result :=
  { exit := 1, failure := some message, files }

/-- How the program exits after a fault. -/
def faultExit : Int := 2

/-- The text of a configuration file.  Of several faults the first counts. -/
private def textOf (bytes : List UInt8) : Except Error String :=
  match String.fromUTF8? bytes.toByteArray with
  | some text => .ok text
  | none =>
    if (Text.validChars bytes).all Yaml.isAllowed then
      .error (.malformed "yaml: invalid leading UTF-8 octet")
    else .error (.malformed Yaml.controlCharacters.message)

/-- The settings of a configuration file; no path means no settings. -/
def fileSettings (files : Files) (path : String) : Except Error (List Setting) :=
  if path = "" then .ok []
  else
    match files.read path with
    | .error e => .error (.within "read run config" e)
    | .ok bytes =>
      match textOf bytes >>= Config.settingsOfText with
      | .error e => .error (.within s!"parse run config {path}" e)
      | .ok settings => .ok settings

/-- The configuration that flags lead to. -/
def configOf (files : Files) (values : List Config.RunFlag) : Except Error Config := do
  let file ← fileSettings files (Config.fileOf values)
  Config.resolve file (Config.settingsOf values)

/-- Supervise a run and print its metrics; its report is written if a path is
given. -/
private def executeRun (files : Files) (values : List Config.RunFlag) : Result :=
  match configOf files values with
  | .error e => failed files e.message
  | .ok config =>
    match Supervisor.run files config true false with
    | .error _ => { exit := faultExit, files }
    | .ok (.error e) => failed files e.message
    | .ok (.ok result) =>
      let stdout := result.metrics.render
      let exit := result.outcome.exitCode
      if config.report = "" then { exit, stdout, files }
      else
        match result.report with
        | .error _ => { exit := faultExit, stdout, files }
        | .ok report =>
          match report.save files config.report with
          | .error e => { failed files e.message with stdout }
          | .ok files => { exit, stdout, written := some (config.report, report.render), files }

private def unknownCommand (files : Files) (name parent : String) : Result :=
  failed files s!"unknown command {Text.quoted name} for {Text.quoted parent}"

/-- The command that arguments name, and the arguments that are left to it. -/
def commandOf (args : List String) : Except String (Command × List String) :=
  match firstWord [] args.length args with
  | none => .ok (.root, args)
  | some (name, rest) =>
    match Command.ofName? name with
    | some command => .ok (command, rest)
    | none => .error name

/-- What a list of arguments leads to. -/
def execute (files : Files) (args : List String) : Result :=
  match commandOf args with
  | .error name => unknownCommand files name program
  | .ok (command, args) =>
    let flags := if command = .run then helpFlag :: Config.flags else [helpFlag]
    match Flag.parse flags args with
    | .error e => failed files e.message
    | .ok parsed =>
      if wantsHelp parsed.values then { files }
      else
        match command, parsed.rest with
        | .root, _ => { files }
        | .version, [] => { stdout := s!"{program} {version}\n", files }
        | .version, name :: _ => unknownCommand files name s!"{program} version"
        | .run, _ => executeRun files parsed.values

/-- The paths that a call looks at, as far as the files at hand tell. -/
def wanted (files : Files) (args : List String) : List String :=
  match commandOf args with
  | .ok (.run, args) =>
    match Flag.parse (helpFlag :: Config.flags) args with
    | .error _ => []
    | .ok parsed =>
      let path := Config.fileOf parsed.values
      match configOf files parsed.values with
      | .error _ => [path]
      | .ok config => [path, config.image, config.diff, config.report]
  | _ => []

end Cosim.CommandLine

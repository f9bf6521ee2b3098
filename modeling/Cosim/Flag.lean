import Cosim.Hex

/-!
# Command line flags

A flag is written `--name value`, `--name=value` or, if it has a letter,
`-n value`, `-nvalue` or `-n=value`.  A flag with an implied value takes
another value only after an equals sign.  Arguments that are no flags may stand
between flags, and everything behind `--` is such an argument.

`Flag.parse` reads arguments from left to right and stops at the first fault.
-/

namespace Cosim

/-- A flag and how its value is read. -/
structure Flag (α : Type) where
  name : String
  letter : Option Char := none
  /-- The value of a flag that is given without one. -/
  implied : Option String := none
  read : String → Except Error α

/-- What is wrong with a list of arguments. -/
inductive FlagError where
  | badSyntax (given : String)
  | unknown (name : String)
  /-- `first` is the first byte behind the dash. -/
  | unknownLetter (first : Char) (given : String)
  | missing (given : String)
  | missingLetter (letter : Char) (given : String)
  | invalid (value flag : String) (cause : Error)
  /-- Help was asked for, and no flag offers it. -/
  | help
deriving DecidableEq, Repr, Inhabited

/-- The text of a flag error. -/
def FlagError.message : FlagError → String
  | .badSyntax given => s!"bad flag syntax: {given}"
  | .unknown name => s!"unknown flag: --{name}"
  | .unknownLetter c given => s!"unknown shorthand flag: {Text.quotedOne c} in -{given}"
  | .missing given => s!"flag needs an argument: {given}"
  | .missingLetter c given => s!"flag needs an argument: {Text.quotedOne c} in -{given}"
  | .invalid value flag cause =>
      s!"invalid argument {Text.quoted value} for {Text.quoted flag} flag: {cause.message}"
  | .help => "pflag: help requested"

namespace Flag

variable {α : Type}

/-- How a flag is named in an error. -/
def title (f : Flag α) : String :=
  match f.letter with
  | some c => s!"-{c}, --{f.name}"
  | none => s!"--{f.name}"

/-- Read the value of a flag. -/
def readValue (f : Flag α) (value : String) : Except FlagError α :=
  match f.read value with
  | .ok a => .ok a
  | .error e => .error (.invalid value f.title e)

/-- Read one long flag; the arguments behind it are returned with its value. -/
def parseLong (flags : List (Flag α)) (given : String) (args : List String) :
    Except FlagError (α × List String) := do
  let body := given.toList.drop 2
  if body.head?.all fun c => c == '-' || c == '=' then throw (.badSyntax given)
  let name := String.ofList (body.takeWhile (· != '='))
  match flags.find? (·.name == name) with
  | none => throw (if name == "help" then .help else .unknown name)
  | some f =>
    match body.dropWhile (· != '='), f.implied, args with
    | _ :: value, _, _ => return (← f.readValue (String.ofList value), args)
    | [], some value, _ => return (← f.readValue value, args)
    | [], none, value :: rest => return (← f.readValue value, rest)
    | [], none, [] => throw (.missing given)

/-- The start of the flags of a test run, which are passed over. -/
def testMark : List Char := "test.".toList

/-- Read flags written by their letters. -/
def parseLetters (flags : List (Flag α)) :
    List Char → List String → Except FlagError (List α × List String)
  | [], args => .ok ([], args)
  | c :: rest, args => do
    if testMark.isPrefixOf (c :: rest) then return ([], args)
    let given := String.ofList (c :: rest)
    match flags.find? (·.letter == some c) with
    | none =>
      let first := Char.ofNat ((String.singleton c).toUTF8.toList.headD 0).toNat
      throw (if c == 'h' then .help else .unknownLetter first given)
    | some f =>
      match rest, f.implied, args with
      | '=' :: v :: value, _, _ => return ([← f.readValue (String.ofList (v :: value))], args)
      | _, some value, _ =>
        let a ← f.readValue value
        let (more, args) ← parseLetters flags rest args
        return (a :: more, args)
      | v :: value, none, _ => return ([← f.readValue (String.ofList (v :: value))], args)
      | [], none, value :: args => return ([← f.readValue value], args)
      | [], none, [] => throw (.missingLetter c given)

/-- What a list of arguments holds. -/
structure Parsed (α : Type) where
  /-- The values of the flags, in order. -/
  values : List α := []
  /-- The arguments that are no flags, in order. -/
  rest : List String := []
deriving Repr, Inhabited

/-- Read arguments behind those that have been read; each takes one of the calls. -/
def parseFrom (flags : List (Flag α)) (p : Parsed α) :
    Nat → List String → Except FlagError (Parsed α)
  | 0, _ => .ok p
  | _, [] => .ok p
  | fuel + 1, arg :: args => do
    match arg.toList with
    | '-' :: '-' :: [] => return { p with rest := p.rest ++ args }
    | '-' :: '-' :: _ =>
      let (a, args) ← parseLong flags arg args
      parseFrom flags { p with values := p.values ++ [a] } fuel args
    | '-' :: c :: letters =>
      let (more, args) ← parseLetters flags (c :: letters) args
      parseFrom flags { p with values := p.values ++ more } fuel args
    | _ => parseFrom flags { p with rest := p.rest ++ [arg] } fuel args

/-- Read the flags of a list of arguments. -/
def parse (flags : List (Flag α)) (args : List String) : Except FlagError (Parsed α) :=
  parseFrom flags {} args.length args

/-! ## Kinds of values -/

/-- Any text. -/
def readText (make : String → α) (value : String) : Except Error α := .ok (make value)

/-- An integer of 64 bits, in the base that it announces. -/
def readInt (make : Int → α) (value : String) : Except Error α :=
  match Numeral.signedMarked value.toList with
  | .ok n => .ok (make n)
  | .error reason => .error (.numeral "strconv.ParseInt" value reason)

/-- A truth value. -/
def readBool (make : Bool → α) (value : String) : Except Error α :=
  if ["1", "t", "T", "true", "TRUE", "True"].contains value then .ok (make true)
  else if ["0", "f", "F", "false", "FALSE", "False"].contains value then .ok (make false)
  else .error (.numeral "strconv.ParseBool" value .syntaxError)

/-- A number in hexadecimal. -/
def readHex (make : UInt64 → α) (value : String) : Except Error α :=
  (Hex.parseSetting value).map make

end Flag

end Cosim

import Cosim.Error

/-!
# Files

The files that a run can reach, by path.  A path is absolute or relative to the
directory of the run, and two devices are always known.

A path is walked from left to right: every part but the last has to be a
directory.  Empty parts and single dots are passed over.
-/

namespace Cosim

/-- What a path leads to. -/
inductive FileEntry where
  | regular (bytes : List UInt8)
  | directory
  | fifo
  /-- A device that delivers zeros without end. -/
  | zeros
  /-- A device that delivers nothing. -/
  | nothing
deriving DecidableEq, Repr, Inhabited

/-- Files by the parts of their paths; an absolute path starts with the part `/`. -/
structure Files where
  entries : List (List String × FileEntry) := []
deriving Repr, Inhabited

namespace Files

/-- The file mode of a directory. -/
def directoryMode : Nat := 0o40755

private def splitFrom (part : List Char) : List Char → List (List Char)
  | [] => [part]
  | c :: rest => if c == '/' then part :: splitFrom [] rest else splitFrom (part ++ [c]) rest

/-- The parts of a path that lead somewhere. -/
def parts (path : String) : List String :=
  let inner := ((splitFrom [] path.toList).filter fun p => p ≠ [] && p ≠ ['.']).map String.ofList
  if path.toList.head? == some '/' then "/" :: inner else inner

/-- A path that ends with a slash has to lead to a directory. -/
private def wantsDirectory (path : String) : Bool := path.toList.getLast? == some '/'

private def devices : List (List String × FileEntry) :=
  [ (["/"], .directory), (["/", "dev"], .directory)
  , (["/", "dev", "zero"], .zeros), (["/", "dev", "null"], .nothing) ]

/-- What stands at a place, if anything does. -/
private def entryAt (files : Files) (key : List String) : Option FileEntry :=
  (files.entries ++ devices).lookup key

/-- Walk on from the parts `seen`. -/
private def walk (files : Files) (seen : List String) (here : FileEntry) :
    List String → Except HostReason FileEntry
  | [] => .ok here
  | part :: rest =>
    if here ≠ .directory then .error .notDirectory
    else
      let seen := seen ++ [part]
      match files.entryAt seen with
      | none => .error .notExist
      | some entry => files.walk seen entry rest

/-- What a path leads to. -/
def find (files : Files) (path : String) : Except HostReason FileEntry := do
  if path = "" then throw .notExist
  let entry ← files.walk [] .directory (parts path)
  if wantsDirectory path ∧ entry ≠ .directory then throw .notDirectory
  return entry

/-- Open a path. -/
def openPath (files : Files) (path : String) : Except Error FileEntry :=
  match files.find path with
  | .ok entry => .ok entry
  | .error reason => .error (.host "open" path reason)

/-- The bytes of an opened path, as far as it has an end. -/
def contents (path : String) : FileEntry → Except Error (List UInt8)
  | .regular bytes => .ok bytes
  | .directory => .error (.host "read" path .isDirectory)
  | .fifo | .zeros | .nothing => .ok []

/-- Read a path to its end. -/
def read (files : Files) (path : String) : Except Error (List UInt8) := do
  contents path (← files.openPath path)

/-- Put a file at the end of a path, and directories on the way to it. -/
def put (files : Files) (path : String) (entry : FileEntry) : Files :=
  let key := parts path
  let around := (List.range key.length).tail.map key.take
  let missing := around.filter fun k => (files.entryAt k).isNone
  { entries :=
      (key, entry) :: missing.map (·, .directory) ++ files.entries.filter (·.1 ≠ key) }

/-- Write a file.  The directory it stands in has to exist. -/
def write (files : Files) (path : String) (bytes : List UInt8) : Except Error Files :=
  let fail (reason : HostReason) : Except Error Files := .error (.host "open" path reason)
  match files.find path with
  | .ok .directory => fail .isDirectory
  | .ok (.regular _) => .ok (files.put path (.regular bytes))
  | .ok _ => .ok files
  | .error .notExist =>
    match files.walk [] .directory (parts path).dropLast with
    | .ok .directory =>
      if path = "" then fail .notExist
      else if wantsDirectory path then fail .isDirectory
      else .ok (files.put path (.regular bytes))
    | .ok _ => fail .notDirectory
    | .error reason => fail reason
  | .error reason => fail reason

end Files

end Cosim

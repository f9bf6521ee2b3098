import Cosim.CommandLine

/-!
# The program

Reads the files that the command line asks for, lets the library decide, and
prints, writes and exits as it says.
-/

namespace Cosim.Host

/-- The path leads to a directory of the host. -/
def isDirectory (path : String) : IO Bool := do ((← IO.currentDir) / path).isDir

/-- Look at one path of the host; the devices are known already.  Of a path that
leads nowhere the directory around it counts. -/
def loadPath (files : Files) (path : String) : IO Files := do
  if path == "" || path.startsWith "/dev/" then return files
  if ← isDirectory path then return files.put path .directory
  try
    let bytes ← IO.FS.readBinFile path
    return files.put path (.regular bytes.toList)
  catch _ =>
    let parent := "/".intercalate (path.splitOn "/").dropLast
    if parent != "" && (← isDirectory parent) then return files.put parent .directory
    return files

end Cosim.Host

open Cosim

/-- Run the program. -/
def main (args : List String) : IO UInt32 := do
  let known ← (CommandLine.wanted {} args).foldlM Host.loadPath {}
  let files ← (CommandLine.wanted known args).foldlM Host.loadPath known
  let result := CommandLine.execute files args
  IO.print result.stdout
  if let some message := result.failure then IO.eprintln s!"Error: {message}"
  if let some (path, text) := result.written then IO.FS.writeFile path text
  return UInt32.ofNat (result.exit % 256).toNat

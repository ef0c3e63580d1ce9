import ApiChronicle.CommandLine

/-! # ApiChronicle.Main

The program, run on the files of the machine.
-/

open ApiChronicle.CommandLine

/-- Read what has been opened. A directory can be opened, but it has no text. -/
def readOpened (handle : IO.FS.Handle) : IO Found := do
  try
    return .text (← handle.readToEnd)
  catch _ => return .unreadable

/-- Look at a path. What cannot be opened is missing, unless it is only closed to this
program. -/
def findFile (path : String) : IO Found := do
  try
    readOpened (← IO.FS.Handle.mk path .read)
  catch
    | .permissionDenied .. => return .unreadable
    | _ => return .missing

/-- Write a text to a path, and tell whether that succeeded. -/
def writeFile (path content : String) : IO Bool := do
  try
    IO.FS.writeFile path content
    return true
  catch _ => return false

def main (arguments : List String) : IO UInt32 := do
  let answer ← (Invocation.ofArguments arguments).run ⟨findFile, writeFile⟩
  IO.print answer.stdout
  IO.eprint answer.stderr
  return answer.exitCode.toUInt32

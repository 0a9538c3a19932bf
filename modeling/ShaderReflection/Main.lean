import ShaderReflection.CommandLine.Program

/-!
# The program on a real system
-/

open ShaderReflection ShaderReflection.CommandLine

/-- What the system says when something on a path is a file and not a directory. -/
def notDirectoryCode : UInt32 := 20

/-- Whether there is something at a path. What can be told from reading is enough. -/
def canBeFound (path : Path) : IO Bool := do
  try
    discard (IO.FS.readBinFile path.toString)
    return true
  catch
    | .noFileOrDirectory .. => return false
    | .inappropriateType _ code _ => return code != notDirectoryCode
    | fault => throw fault

def printTo : Stream → String → IO Unit
  | .output, text => IO.print text
  | .errors, text => IO.eprint text

def breakageNote : Breakage → String
  | .file .undecodable => "the input is not encoded in UTF-8"
  | .file _ => "a file cannot be used"
  | .report fault => fault.message
  | .print _ => "a text cannot be printed"

def realShell : Shell IO where
  contains := canBeFound
  read path := IO.FS.readBinFile path.toString
  makeDirectory path := IO.FS.createDirAll path.toString
  write path content := IO.FS.writeBinFile path.toString content
  print := printTo
  offer stream text := do
    try printTo stream text catch _ => return
  breakOff cause := throw (.userError (breakageNote cause))

def main (arguments : List String) : IO UInt32 := do
  return UInt32.ofNat (← program realShell arguments)

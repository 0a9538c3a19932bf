import ShaderReflection.CommandLine.Arguments
import ShaderReflection.CommandLine.FileStore
import ShaderReflection.Reflection.Report

/-!
# The program

What the program does with its arguments and files, as steps that some system carries out. The
decisions between them are made by functions on values: from the arguments to a request, and from
the content of the input file to an effect.
-/

namespace ShaderReflection.CommandLine

open ShaderReflection.Reflection

/-! ## Text files -/

def unifyLines : List Char → List Char
  | [] => []
  | '\r' :: '\n' :: text => '\n' :: unifyLines text
  | '\r' :: text => '\n' :: unifyLines text
  | char :: text => char :: unifyLines text

def decode (content : ByteArray) : Except FileFault String :=
  match String.fromUTF8? content with
  | some text => .ok (String.ofList (unifyLines text.toList))
  | none => .error .undecodable

def FileStore.readText (store : FileStore) (path : Path) : Except FileFault String := do
  decode (← store.read path)

/-! ## Decisions -/

/-- What is to be done with an input: something to print and an exit code, a file to write, or
nothing because the report cannot be written out. -/
inductive Effect where
  | print (text : String)
  | fail (message : String)
  | breakOff (fault : Fault)
  | save (directory : Path) (name : String) (text : String)
deriving Repr

def reportName (input : Path) : String := input.stem ++ ".reflect.json"

def effectOf (options : Options) (input : Path) (source : String) : Effect :=
  if options.dumpTree then
    match parse source with
    | .ok tree => .print (String.ofList (tree.root.dump tree.source ++ ['\n']))
    | .error fault => .fail fault.message
  else
    match reflect source with
    | .error fault => .fail fault.message
    | .ok model =>
        match model.report input.name with
        | .error fault => .breakOff fault
        | .ok text =>
            if options.standardOutput then .print text
            else
              let directory := (options.outputDirectory.map Path.ofString).getD input.parent
              .save directory (reportName input) text

def savedNote (directory : Path) (name : String) : String :=
  let path := (directory.child name).toString
  s!"Wrote {path}\n"

def missingNote (input : Path) : String :=
  let path := input.toString
  s!"Error: file not found: {path}\n"

def failureNote (message : String) : String := s!"Error: {message}\n"

def usageNote (fault : UsageError) : String :=
  let message := fault.message
  s!"{usage}wgslr: error: {message}\n"

/-! ## Steps -/

inductive Stream where
  | output
  | errors
deriving DecidableEq, Repr

/-- Why the program breaks off without an exit code. -/
inductive Breakage where
  | file (fault : FileFault)
  | report (fault : Fault)
  | print (stream : Stream)
deriving Repr

/-- The steps that a system carries out for the program. Each of them may end the program. -/
structure Shell (m : Type → Type) where
  contains : Path → m Bool
  read : Path → m ByteArray
  makeDirectory : Path → m Unit
  write : Path → ByteArray → m Unit
  print : Stream → String → m Unit
  /-- Print a text, or go on without it. -/
  offer : Stream → String → m Unit
  breakOff : Breakage → m Nat

variable {m : Type → Type} [Monad m] (shell : Shell m)

def perform : Effect → m Nat
  | .print text => do
      shell.print .output text
      return 0
  | .fail message => do
      shell.print .errors (failureNote message)
      return 1
  | .breakOff fault => shell.breakOff (.report fault)
  | .save directory name text => do
      shell.makeDirectory directory
      shell.write (directory.child name) text.toUTF8
      shell.print .output (savedNote directory name)
      return 0

def runContent (options : Options) (input : Path) (content : ByteArray) : m Nat :=
  match decode content with
  | .error fault => shell.breakOff (.file fault)
  | .ok source => perform shell (effectOf options input source)

def runInput (options : Options) (input : Path) : m Nat := do
  if ← shell.contains input then
    runContent shell options input (← shell.read input)
  else
    shell.print .errors (missingNote input)
    return 1

/-- Do what the arguments ask for. The result is the exit code. -/
def program (arguments : List String) : m Nat :=
  match readArguments arguments with
  | .error fault => do
      shell.offer .errors (usageNote fault)
      return 2
  | .ok .help => do
      shell.offer .output help
      return 0
  | .ok .version => do
      shell.offer .output version
      return 0
  | .ok (.run options) =>
      match options.input with
      | none => do
          shell.offer .output help
          return 0
      | some input => runInput shell options (Path.ofString input)

end ShaderReflection.CommandLine

import ShaderReflection.CommandLine.Program

/-!
# Running the program

A run of the program on a store of files. What the files do not settle is up to the host: it may
refuse access to a place, stop in the middle of writing a file, or not take what is printed.
-/

namespace ShaderReflection.CommandLine

/-! ## Hosts -/

/-- What is asked of a host at a place. -/
inductive Access where
  | look
  | read
  | make
  | write
deriving DecidableEq, Repr

/-- How a system behaves where the files alone do not settle it. -/
structure Host where
  refuses : Access → Place → Bool
  /-- The number of bytes that get into a file before writing it fails, if it does. -/
  cutoff : Place → Option Nat
  takes : Stream → String → Bool

/-- A host that does all that the files allow. -/
def Host.ideal : Host := ⟨fun _ _ => false, fun _ => none, fun _ _ => true⟩

/-! ## Worlds -/

/-- The files, and what has been printed. -/
structure World where
  store : FileStore
  output : String
  errors : String

namespace World

def printed (world : World) (text : String) : Stream → World
  | .output => { world with output := world.output ++ text }
  | .errors => { world with errors := world.errors ++ text }

end World

/-- Steps in a world, which the first breakage ends. -/
abbrev Session := EStateM Breakage World

namespace FileStore

/-- The place that a path leads to, whether there is something or not. -/
def placeOf (store : FileStore) (path : Path) : Place :=
  path.parts.foldl descend (store.startOf path)

end FileStore

namespace Host

variable (host : Host)

/-- The answer to a question about the files, unless the host refuses to give it. -/
def ask {α : Type} (access : Access) (path : Path) (answer : FileStore → Except FileFault α) :
    Session α := fun world =>
  match answer world.store with
  | .error fault => .error (.file fault) world
  | .ok value =>
      if host.refuses access (world.store.placeOf path) then .error (.file .refused) world
      else .ok value world

def makeDirectory (path : Path) : Session Unit := fun world =>
  match world.store.makeDirectory (host.refuses .make) path with
  | (store, none) => .ok () { world with store }
  | (store, some fault) => .error (.file fault) { world with store }

/-- Write a file. If this fails half-way, the old content is gone and the new one is not all
there. -/
def write (path : Path) (content : ByteArray) : Session Unit := fun world =>
  match world.store.target path with
  | .error fault => .error (.file fault) world
  | .ok place =>
      if host.refuses .write place then .error (.file .refused) world
      else
        match host.cutoff place with
        | none => .ok () { world with store := world.store.set place (.file content) }
        | some count =>
            let store := world.store.set place (.file (content.extract 0 count))
            .error (.file .refused) { world with store }

def print (stream : Stream) (text : String) : Session Unit := fun world =>
  if host.takes stream text then .ok () (world.printed text stream)
  else .error (.print stream) world

def offer (stream : Stream) (text : String) : Session Unit := fun world =>
  .ok () (if host.takes stream text then world.printed text stream else world)

/-- The steps of the program on a store of files. -/
def shell : Shell Session where
  contains path := host.ask .look path fun store => store.contains path
  read path := host.ask .read path fun store => store.read path
  makeDirectory := host.makeDirectory
  write := host.write
  print := host.print
  offer := host.offer
  breakOff := throw

end Host

/-! ## Runs -/

/-- How a run ends: with an exit code, or because it broke off. -/
inductive Ending where
  | exit (code : Nat)
  | broken (cause : Breakage)
deriving Repr

/-- How a run ends and what it leaves behind. -/
structure Outcome extends World where
  ending : Ending

def Outcome.ofResult : EStateM.Result Breakage World Nat → Outcome
  | .ok code world => ⟨world, .exit code⟩
  | .error cause world => ⟨world, .broken cause⟩

def run (host : Host) (store : FileStore) (arguments : List String) : Outcome :=
  .ofResult ((program host.shell arguments).run ⟨store, "", ""⟩)

end ShaderReflection.CommandLine

import ShaderReflection.CommandLine.Path

/-!
# Files

The files and directories of a system without links, by their places below the root, and the
directory in which relative paths start.
-/

namespace ShaderReflection.CommandLine

/-- A file with its content, or a directory. -/
inductive Entry where
  | file (content : ByteArray)
  | directory

/-- Why a file or directory cannot be used. -/
inductive FileFault where
  | notFound
  | isDirectory
  | notDirectory
  | alreadyExists
  | nameTooLong
  | nullCharacter
  | undecodable
  /-- The system does not do what the files would allow. -/
  | refused
deriving DecidableEq, Repr

/-- Whether a fault only says that there is nothing at a path. -/
def FileFault.isAbsence : FileFault → Bool
  | notFound | notDirectory | nullCharacter => true
  | _ => false

/-! ## Limits -/

def nameLimit : Nat := 255

def pathLimit : Nat := 4095

/-- Whether the text of a path can be used to reach something. -/
def Path.check (path : Path) : Except FileFault Unit :=
  let text := path.toString
  if text.toList.contains '\x00' then .error .nullCharacter
  else if pathLimit < text.utf8ByteSize then .error .nameTooLong
  else .ok ()

/-! ## Places -/

/-- The names that lead from the root to a file or directory. -/
abbrev Place := List String

/-- The place one part further on from a directory, whether there is something or not. Above the
root is the root. -/
def descend (place : Place) (part : String) : Place :=
  if part = ".." then place.dropLast else place ++ [part]

/-- The entries of a system by their places. -/
structure FileStore where
  current : Place
  entries : List (Place × Entry)

namespace FileStore

/-- The entry at a place. The current directory and those above it are directories. -/
def entryAt? (store : FileStore) (place : Place) : Option Entry :=
  if place.isPrefixOf store.current then some .directory else store.entries.lookup place

def set (store : FileStore) (place : Place) (entry : Entry) : FileStore :=
  { store with
    entries := (place, entry) :: store.entries.filter fun other => other.1 != place }

/-- The directory in which a path starts. -/
def startOf (store : FileStore) (path : Path) : Place :=
  if path.root = "" then store.current else []

/-! ## Looking and reading -/

/-- Follow the parts of a path from a directory: the place reached, and what is there. -/
def follow (store : FileStore) : Place → List String → Except FileFault (Place × Entry)
  | place, [] => .ok (place, .directory)
  | place, part :: rest =>
      if nameLimit < part.utf8ByteSize then .error .nameTooLong
      else
        let next := descend place part
        match store.entryAt? next, rest with
        | none, _ => .error .notFound
        | some entry, [] => .ok (next, entry)
        | some .directory, _ => store.follow next rest
        | some (.file _), _ => .error .notDirectory

def find (store : FileStore) (path : Path) : Except FileFault (Place × Entry) := do
  path.check
  store.follow (store.startOf path) path.parts

/-- Whether there is something at a path. Some paths are too long to tell. -/
def contains (store : FileStore) (path : Path) : Except FileFault Bool :=
  match store.find path with
  | .ok _ => .ok true
  | .error fault => if fault.isAbsence then .ok false else .error fault

def read (store : FileStore) (path : Path) : Except FileFault ByteArray :=
  match store.find path with
  | .ok (_, .file content) => .ok content
  | .ok (_, .directory) => .error .isDirectory
  | .error fault => .error fault

/-! ## Making directories and writing -/

/-- Create the directories on the way along some parts that do not exist yet, as far as this is not
refused. What has been created in front of a fault stays. A file in front of other parts is the
wrong kind of entry as long as nothing had to be created. -/
def makeDirectories (refuses : Place → Bool) :
    FileStore → (created : Bool) → Place → List String → FileStore × Option FileFault
  | store, _, _, [] => (store, none)
  | store, created, place, part :: rest =>
      if nameLimit < part.utf8ByteSize then (store, some .nameTooLong)
      else
        let next := descend place part
        match store.entryAt? next with
        | some .directory => makeDirectories refuses store created next rest
        | some (.file _) =>
            (store, some (if created || rest.isEmpty then .alreadyExists else .notDirectory))
        | none =>
            if refuses next then (store, some .refused)
            else makeDirectories refuses (store.set next .directory) true next rest

/-- Create a directory and those above it, as far as they do not exist. -/
def makeDirectory (refuses : Place → Bool) (store : FileStore) (path : Path) :
    FileStore × Option FileFault :=
  match path.check with
  | .error fault => (store, some fault)
  | .ok () => makeDirectories refuses store false (store.startOf path) path.parts

/-- The place at which the file of a path can be written. -/
def target (store : FileStore) (path : Path) : Except FileFault Place := do
  path.check
  match path.parts.getLast? with
  | none => throw .isDirectory
  | some name =>
      match ← store.follow (store.startOf path) path.parts.dropLast with
      | (_, .file _) => throw .notDirectory
      | (directory, .directory) =>
          if nameLimit < name.utf8ByteSize then throw .nameTooLong
          else
            match store.entryAt? (descend directory name) with
            | some .directory => throw .isDirectory
            | _ => return descend directory name

end FileStore

end ShaderReflection.CommandLine

/-!
# Paths

A path is a row of names behind an optional root. Repeated and trailing slashes and single points
carry no meaning and are dropped; double points are kept.
-/

namespace ShaderReflection.CommandLine

/-- A path. `root` is empty for a path that starts in the current directory. -/
structure Path where
  root : String
  parts : List String
deriving DecidableEq, Repr

namespace Path

def split : List Char → List (List Char)
  | [] => [[]]
  | char :: text =>
      if char = '/' then [] :: split text
      else
        match split text with
        | [] => [[char]]
        | piece :: pieces => (char :: piece) :: pieces

/-- The root of a path: exactly two slashes in front are kept apart from any other number. -/
def rootOf (text : List Char) : String :=
  match text.takeWhile (· == '/') with
  | [] => ""
  | ['/', '/'] => "//"
  | _ => "/"

def ofString (text : String) : Path where
  root := rootOf text.toList
  parts := ((split text.toList).map String.ofList).filter fun piece => piece != "" && piece != "."

/-- The text of a path. A path without parts is the current directory or the root. -/
def toString (path : Path) : String :=
  if path.root == "" && path.parts.isEmpty then "."
  else path.root ++ "/".intercalate path.parts

/-- The last part, or the empty text. -/
def name (path : Path) : String := path.parts.getLast?.getD ""

def lastPoint? (text : List Char) : Option Nat :=
  (text.reverse.findIdx? (· == '.')).map fun index => text.length - 1 - index

/-- The name without its last suffix. A point at the start or at the end begins no suffix. -/
def stem (path : Path) : String :=
  let name := path.name.toList
  match lastPoint? name with
  | some index =>
      if 0 < index ∧ index < name.length - 1 then String.ofList (name.take index)
      else path.name
  | none => path.name

def parent (path : Path) : Path := ⟨path.root, path.parts.dropLast⟩

def child (path : Path) (name : String) : Path := ⟨path.root, path.parts ++ [name]⟩

end Path

end ShaderReflection.CommandLine

import ShaderReflection.NameTable
import ShaderReflection.Query.Pattern

/-!
# Matching

A pattern matches a named node of its kind whose children meet the child patterns: a pattern for a
field is met by that field, and the others are met by named children in order, each by the first
one that is left.
-/

namespace ShaderReflection.Query

open ShaderReflection.Tree

abbrev Captures := NameTable Node

/-- The first element that gives a result, with the result and the elements behind it. -/
def pick {α β : Type} (select : α → Option β) : List α → Option (β × List α)
  | [] => none
  | candidate :: rest =>
      match select candidate with
      | some result => some (result, rest)
      | none => pick select rest

namespace Pattern

def asksFor (kind type : String) : Bool := kind == wildcard || type == kind

/-- Keep a node under the capture of a pattern, if it has one. -/
def keep (capture : Option String) (node : Node) (captures : Captures) : Captures :=
  match capture with
  | some name => captures.put name node
  | none => captures

mutual

/-- The captures of a match, or `none` if the node does not match. A capture further out replaces
one of the same name further in, and a later one an earlier one. -/
def matchNode (source : List Char) : Pattern → Node → Option Captures
  | mk kind _ capture children, node =>
      if node.isNamed && asksFor kind (node.type source) then
        (matchChildren source children node node.namedChildren .empty).map (keep capture node)
      else none

/-- Match child patterns against the fields of a node and the candidates that are left. -/
def matchChildren (source : List Char) :
    List Pattern → Node → List Node → Captures → Option Captures
  | [], _, _, captures => some captures
  | pattern :: rest, node, candidates, captures =>
      match pattern.field with
      | some field =>
          match (node.field? field).bind fun target => matchNode source pattern target with
          | some found => matchChildren source rest node candidates (captures.putAll found.entries)
          | none => none
      | none =>
          match pick (fun candidate => matchNode source pattern candidate) candidates with
          | some (found, remaining) =>
              matchChildren source rest node remaining (captures.putAll found.entries)
          | none => none

end

end Pattern

/-- A match: the number of the pattern and the captured nodes. -/
structure Match where
  pattern : Nat
  captures : Captures
deriving Repr

def Match.get (found : Match) (name : String) : Attempt Node :=
  match found.captures.get? name with
  | some node => .ok node
  | none => .error (.noCapture name)

/-- All matches of the patterns in a tree, by node and then by pattern; nodes come before those
below them. -/
def matchesIn (patterns : List Pattern) (tree : SyntaxTree) : List Match :=
  tree.root.walk.flatMap fun node =>
    (patterns.mapIdx fun index pattern =>
      (pattern.matchNode tree.source node).map (Match.mk index)).filterMap id

end ShaderReflection.Query

import ShaderReflection.Query.Match
import ShaderReflection.Reflection.Declaration

/-!
# Structures of a module
-/

namespace ShaderReflection.Reflection

open ShaderReflection.Tree

/-- Read one child of a structure: a member, or the name. -/
def readStructureChild (source : List Char) (name : String) (members : List Input)
    (child : Node) : Attempt (List Input) := do
  match ← child.kind with
  | .structMember => return members ++ [← readInput source child]
  | .identifier => return members
  | _ => throw (.strayChild (child.type source) "struct" name)

def readStructure (source : List Char) (node : Node) : Attempt Structure := do
  unless (← node.kind) = .structDeclaration do
    throw (.expectedKind .structDeclaration (node.type source))
  match ← node.field "name" with
  | none => throw (.namelessStructure (node.text source))
  | some name =>
      let members ←
        node.namedChildren.foldlM (readStructureChild source (name.text source)) []
      return ⟨name.text source, members⟩

def structureQuery : List Query.Pattern := Query.ofKind .structDeclaration "struct"

/-- The structures of a module. A later declaration replaces an earlier one of the same name. -/
def structuresOf (tree : SyntaxTree) : Attempt (NameTable Structure) :=
  (Query.matchesIn structureQuery tree).foldlM (fun table found => do
    let declared ← readStructure tree.source (← found.get "struct")
    return table.put declared.name declared) .empty

end ShaderReflection.Reflection

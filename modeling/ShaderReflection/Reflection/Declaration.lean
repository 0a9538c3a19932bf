import ShaderReflection.Reflection.Model

/-!
# Declarations

The parts from which members, parameters and variables are declared: a name with a type, and
attributes.
-/

namespace ShaderReflection.Reflection

open ShaderReflection.Tree

/-- The text of a name and of the type that it is declared with. -/
structure Declared where
  name : String
  type : String
deriving DecidableEq, Repr

def readDeclared (source : List Char) (node : Node) : Attempt Declared := do
  let name ← node.field "name"
  let type ← node.field "type"
  match name, type with
  | some name, some type => return ⟨name.text source, type.text source⟩
  | _, _ => throw (.incompleteDeclaration (node.text source))

/-- Read an attribute of a member or parameter. Of several arguments only the first is kept, and
without arguments the value is empty. -/
def readAttribute (source : List Char) (node : Node) : Attempt Attribute :=
  match node.namedChildren with
  | [] => throw .noElement
  | [name] => return ⟨name.text source, ""⟩
  | name :: value :: _ => return ⟨name.text source, value.text source⟩

/-- What has been read of a member or parameter. -/
structure InputDraft where
  declared : Option Declared
  attributes : List Attribute

def readInputChild (source : List Char) (node : Node) (draft : InputDraft) (child : Node) :
    Attempt InputDraft := do
  match ← child.kind with
  | .variableIdentifierDeclaration =>
      return { draft with declared := some (← readDeclared source child) }
  | .attributeUse =>
      return { draft with attributes := draft.attributes ++ [← readAttribute source child] }
  | _ => throw (.strayChild (child.type source) (node.type source) (node.text source))

/-- Read a member of a structure or a parameter of a function. -/
def readInput (source : List Char) (node : Node) : Attempt Input := do
  let draft ← node.namedChildren.foldlM (readInputChild source node) ⟨none, []⟩
  match draft.declared with
  | some declared => return ⟨declared.name, declared.type, draft.attributes⟩
  | none => throw (.namelessInput (node.type source) (node.text source))

end ShaderReflection.Reflection

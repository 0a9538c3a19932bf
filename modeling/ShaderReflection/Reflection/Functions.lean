import ShaderReflection.Reflection.Structures

/-!
# Functions of a module
-/

namespace ShaderReflection.Reflection

open ShaderReflection.Tree

/-- The name of an attribute and the text of all its arguments: everything behind the name without
white space between the parts, the enclosing parentheses left out. -/
def readAttributeText (source : List Char) (node : Node) : Attempt Attribute :=
  match node.children.dropWhile fun child => !child.isNamed with
  | [] => throw (.noNamedChild 0 (node.type source))
  | name :: rest =>
      let texts := (rest.map (Node.text source)).filter fun text => text != "(" && text != ")"
      return ⟨name.text source, String.join texts⟩

/-- Read a parameter. The members of a structure stand in place of a parameter of that type; a
member that is a structure itself stays as it is. -/
def readParameter (source : List Char) (structures : NameTable Structure) (inputs : List Input)
    (node : Node) : Attempt (List Input) := do
  unless (← node.kind) = .parameter do
    throw (.expectedKind .parameter (node.type source))
  let input ← readInput source node
  match structures.get? input.type with
  | some found => return inputs ++ found.members
  | none => return inputs ++ [input]

/-- What has been read of a signature. -/
structure SignatureDraft where
  attributes : NameTable String
  inputs : List Input
  returnType : Option String

def readFunctionChild (source : List Char) (structures : NameTable Structure) (name : String)
    (draft : SignatureDraft) (child : Node) : Attempt SignatureDraft := do
  match ← child.kind with
  | .attributeUse =>
      let found ← readAttributeText source child
      return { draft with attributes := draft.attributes.put found.name found.value }
  | .parameterList =>
      let inputs ← child.namedChildren.foldlM (readParameter source structures) draft.inputs
      return { draft with inputs }
  | .functionReturnType =>
      let type ← child.field "type"
      return { draft with returnType := type.map (Node.text source) }
  | .identifier => return draft
  | .compoundStatement => return draft
  | _ => throw (.strayChild (child.type source) "function" name)

def readFunction (source : List Char) (structures : NameTable Structure) (node : Node) :
    Attempt Signature := do
  unless (← node.kind) = .functionDeclaration do
    throw (.expectedKind .functionDeclaration (node.type source))
  match ← node.field "name" with
  | none => throw (.namelessFunction (node.text source))
  | some name =>
      let draft ← node.namedChildren.foldlM
        (readFunctionChild source structures (name.text source)) ⟨.empty, [], none⟩
      return ⟨name.text source, draft.attributes, draft.inputs, draft.returnType⟩

def functionQuery : List Query.Pattern := Query.ofKind .functionDeclaration "func"

/-- The signatures of the functions of a module. A later declaration replaces an earlier one of the
same name. -/
def functionsOf (tree : SyntaxTree) (structures : NameTable Structure) :
    Attempt (NameTable Signature) :=
  (Query.matchesIn functionQuery tree).foldlM (fun table found => do
    let signature ← readFunction tree.source structures (← found.get "func")
    return table.put signature.name signature) .empty

/-! ## Entry points -/

/-- The entry points found so far, and the stages already seen on the function at hand. -/
structure StageDraft where
  entryPoints : EntryPoints
  seen : List Stage

/-- Read one child of a function for the stage that it may mark. -/
def readStage (source : List Char) (functions : NameTable Signature) (name : String)
    (draft : StageDraft) (child : Node) : Attempt StageDraft := do
  unless (← child.kind) = .attributeUse do return draft
  match child.namedChildren with
  | [] => throw (.noNamedChild 0 (child.type source))
  | mark :: _ =>
      match Stage.ofName? (mark.text source) with
      | none => return draft
      | some stage =>
          if stage ∈ draft.seen then return draft
          match functions.get? name with
          | none => throw (.missingFunction name)
          | some signature =>
              return ⟨draft.entryPoints.add stage signature, draft.seen ++ [stage]⟩

/-- Add the entry points that one function declaration marks. -/
def readStages (source : List Char) (functions : NameTable Signature)
    (entryPoints : EntryPoints) (node : Node) : Attempt EntryPoints := do
  match ← node.field "name" with
  | none => throw (.namelessFunction (node.text source))
  | some name =>
      let draft ← node.namedChildren.foldlM
        (readStage source functions (name.text source)) ⟨entryPoints, []⟩
      return draft.entryPoints

/-- The entry points of a module, with signatures from a table of functions. -/
def entryPointsOf (tree : SyntaxTree) (functions : NameTable Signature) : Attempt EntryPoints :=
  (Query.matchesIn functionQuery tree).foldlM (fun entryPoints found => do
    readStages tree.source functions entryPoints (← found.get "func")) .empty

end ShaderReflection.Reflection

import Mathlib.Data.List.Forall2
import ShaderReflection.Proofs.NameTable
import ShaderReflection.Proofs.Reflection.Queries
import ShaderReflection.Proofs.Tree.Parts

/-!
# What declarations say

What a declaration says is told from its parts, as the grammar has them: the one name, the one
type, the attributes and the members or parameters in order. Members and structures are read just
so, and a pass puts what it reads into a table.
-/

namespace ShaderReflection.Reflection

open ShaderReflection.Tree ShaderReflection.Attempt

variable {source : List Char} {node : Node} {kind : Kind}

/-! ## What a declaration says -/

/-- The one name in a declaration as it is written. -/
def DescribesName (source : List Char) (node : Node) (text : String) : Prop :=
  ∃ name, node.parts .identifier = [name] ∧ text = name.text source

/-- The name and the type of a declaration as they are written. -/
def DescribesDeclared (source : List Char) (node : Node) (declared : Declared) : Prop :=
  ∃ name type, node.parts .identifier = [name] ∧ node.parts .typeDeclaration = [type] ∧
    declared = ⟨name.text source, type.text source⟩

/-- An attribute of a member or parameter: its name and its first argument. -/
def DescribesAttribute (source : List Char) (node : Node) (found : Attribute) : Prop :=
  ∃ name inside, node.UsesAttribute name inside ∧
    found = ⟨name.text source, (inside.head?.map (Node.text source)).getD ""⟩

/-- An attribute of a function: its name and all that stands between its parentheses. -/
def DescribesMark (source : List Char) (node : Node) (found : Attribute) : Prop :=
  ∃ name inside, node.UsesAttribute name inside ∧
    found = ⟨name.text source, String.join (inside.map (Node.text source))⟩

/-- A member or parameter. -/
structure DescribesInput (source : List Char) (node : Node) (input : Input) : Prop where
  declared : ∃ declaration, node.parts .variableIdentifierDeclaration = [declaration] ∧
    DescribesDeclared source declaration ⟨input.name, input.type⟩
  attributes : List.Forall₂ (DescribesAttribute source) (node.parts .attributeUse) input.attributes

structure DescribesStructure (source : List Char) (node : Node) (found : Structure) : Prop where
  name : DescribesName source node found.name
  members : List.Forall₂ (DescribesInput source) (node.parts .structMember) found.members

/-- What a parameter stands for: the members of its structure as they are, or itself. -/
def expand (structures : NameTable Structure) (parameter : Input) : List Input :=
  match structures.get? parameter.type with
  | some found => found.members
  | none => [parameter]

/-- A function, with the structures of the module. -/
structure DescribesSignature (source : List Char) (structures : NameTable Structure) (node : Node)
    (signature : Signature) : Prop where
  name : DescribesName source node signature.name
  attributes : ∃ marks, List.Forall₂ (DescribesMark source) (node.parts .attributeUse) marks ∧
    signature.attributes.Tabulates (marks.map fun mark => (mark.name, mark.value))
  inputs : ∃ parameters, List.Forall₂ (DescribesInput source)
      ((node.parts .parameterList).flatMap fun list => list.parts .parameter) parameters ∧
    signature.inputs = parameters.flatMap (expand structures)
  returnType : (node.parts .functionReturnType = [] ∧ signature.returnType = none) ∨
    ∃ part type, node.parts .functionReturnType = [part] ∧ part.parts .typeDeclaration = [type] ∧
      signature.returnType = some (type.text source)

/-! ## Members and parameters -/

theorem readDeclared_describes (ofKind : node.OfKind source .variableIdentifierDeclaration) :
    Succeeds (DescribesDeclared source node) (readDeclared source node) := by
  rcases ofKind.parts_eq_singleton .identifier (by decide) rfl rfl with ⟨name, isName, -⟩
  rcases ofKind.parts_eq_singleton .typeDeclaration (by decide) rfl rfl with ⟨type, isType, -⟩
  rw [readDeclared, ofKind.field_eq_head? "name" rfl, ofKind.field_eq_head? "type" rfl, isName,
    isType]
  exact ⟨name, type, isName, isType, rfl⟩

theorem readAttribute_describes (ofKind : node.OfKind source .attributeUse) :
    Succeeds (DescribesAttribute source node) (readAttribute source node) := by
  rcases ofKind.exists_usesAttribute with ⟨name, inside, uses, -, begins⟩
  rw [readAttribute, uses.namedChildren]
  cases inside with
  | nil => exact ⟨name, [], uses, rfl⟩
  | cons first rest =>
      rw [List.filter_cons_of_pos (begins first rfl)]
      exact ⟨name, first :: rest, uses, rfl⟩

/-- What the named children of a member or parameter that have been read so far say. -/
structure DescribesInputDraft (source : List Char) (before : List Node) (draft : InputDraft) :
    Prop where
  declared : ∀ declaration,
    (Node.among .variableIdentifierDeclaration before).getLast? = some declaration →
      ∃ declared, draft.declared = some declared ∧ DescribesDeclared source declaration declared
  attributes : List.Forall₂ (DescribesAttribute source) (Node.among .attributeUse before)
    draft.attributes

theorem readInputChild_describes {before : List Node} {draft : InputDraft} {child : Node}
    (describes : DescribesInputDraft source before draft)
    (ofKind : child.OfKind source .variableIdentifierDeclaration ∨
      child.OfKind source .attributeUse) :
    Succeeds (DescribesInputDraft source (before ++ [child]))
      (readInputChild source node draft child) := by
  rcases ofKind with isDeclared | isAttribute
  · rw [readInputChild, isDeclared.kind_eq]
    refine (readDeclared_describes isDeclared).bind fun declared found => ?_
    constructor
    · intro declaration isLast
      rw [Node.among_concat_of_eq isDeclared.isKind, List.getLast?_concat] at isLast
      cases isLast
      exact ⟨declared, rfl, found⟩
    · rw [Node.among_concat_of_ne isDeclared.isKind (by decide)]
      exact describes.attributes
  · rw [readInputChild, isAttribute.kind_eq]
    refine (readAttribute_describes isAttribute).bind fun value found => ?_
    constructor
    · rw [Node.among_concat_of_ne isAttribute.isKind (by decide)]
      exact describes.declared
    · rw [Node.among_concat_of_eq isAttribute.isKind]
      exact List.rel_append describes.attributes (.cons found .nil)

/-- Members and parameters are made in the same way. -/
theorem readInput_describes (ofKind : node.OfKind source kind)
    (isInput : kind = .structMember ∨ kind = .parameter) :
    Succeeds (DescribesInput source node) (readInput source node) := by
  have children : ∀ child ∈ node.namedChildren,
      child.OfKind source .variableIdentifierDeclaration ∨ child.OfKind source .attributeUse := by
    intro child isChild
    have found : ∃ inner ∈ [Kind.variableIdentifierDeclaration, .attributeUse],
        child.OfKind source inner := by
      rcases isInput with rfl | rfl
      · exact ofKind.exists_kind _ rfl isChild
      · exact ofKind.exists_kind _ rfl isChild
    simpa using found
  have only : ∃ declaration, node.parts .variableIdentifierDeclaration = [declaration] ∧
      declaration.OfKind source .variableIdentifierDeclaration := by
    rcases isInput with rfl | rfl
    · exact ofKind.parts_eq_singleton _ (by decide) rfl rfl
    · exact ofKind.parts_eq_singleton _ (by decide) rfl rfl
  rcases only with ⟨declaration, isOnly, -⟩
  have folded : Succeeds (DescribesInputDraft source node.namedChildren)
      (node.namedChildren.foldlM (readInputChild source node) ⟨none, []⟩) := by
    apply Gives.foldlM_prefix
    · exact ⟨by simp [Node.among], .nil⟩
    · intro before draft describes child isChild
      exact readInputChild_describes describes (children child isChild)
  refine folded.bind fun draft describes => ?_
  have named := describes.declared declaration
  have attributes := describes.attributes
  rw [Node.among_namedChildren (by decide)] at named attributes
  rw [isOnly] at named
  rcases named rfl with ⟨declared, isDeclared, found⟩
  simp only [isDeclared]
  exact ⟨⟨declaration, isOnly, found⟩, attributes⟩

/-! ## Structures -/

/-- What the named children of a structure that have been read so far say. -/
def DescribesMembers (source : List Char) (before : List Node) (members : List Input) : Prop :=
  List.Forall₂ (DescribesInput source) (Node.among .structMember before) members

theorem readStructureChild_describes {name : String} {before : List Node} {members : List Input}
    {child : Node} (describes : DescribesMembers source before members)
    (ofKind : node.OfKind source .structDeclaration) (isChild : child ∈ node.namedChildren) :
    Succeeds (DescribesMembers source (before ++ [child]))
      (readStructureChild source name members child) := by
  rcases ofKind.exists_kind [.structMember, .identifier] rfl isChild with
    ⟨inner, isInner, childOfKind⟩
  rw [readStructureChild, childOfKind.kind_eq]
  rcases List.mem_pair.mp isInner with rfl | rfl
  · refine (readInput_describes childOfKind (.inl rfl)).bind fun input found => ?_
    show DescribesMembers source (before ++ [child]) (members ++ [input])
    rw [DescribesMembers, Node.among_concat_of_eq childOfKind.isKind]
    exact List.rel_append describes (.cons found .nil)
  · show DescribesMembers source (before ++ [child]) members
    rw [DescribesMembers, Node.among_concat_of_ne childOfKind.isKind (by decide)]
    exact describes

theorem readStructure_describes (ofKind : node.OfKind source .structDeclaration) :
    Succeeds (DescribesStructure source node) (readStructure source node) := by
  rcases ofKind.parts_eq_singleton .identifier (by decide) rfl rfl with ⟨name, isName, -⟩
  rw [readStructure, ofKind.kind_eq, ofKind.field_eq_head? "name" rfl, isName]
  have folded : Succeeds (DescribesMembers source node.namedChildren)
      (node.namedChildren.foldlM (readStructureChild source (name.text source)) []) := by
    apply Gives.foldlM_prefix
    · exact .nil
    · intro before members describes child isChild
      exact readStructureChild_describes describes ofKind isChild
  refine folded.bind fun members describes => ?_
  rw [DescribesMembers, Node.among_namedChildren (by decide)] at describes
  exact ⟨⟨name, isName, rfl⟩, describes⟩

/-! ## Tables -/

/-- A table of what nodes say, each under its own name. -/
def DescribesTable {α : Type} (describes : Node → α → Prop) (name : α → String)
    (nodes : List Node) (table : NameTable α) : Prop :=
  ∃ values, List.Forall₂ describes nodes values ∧
    table.Tabulates (values.map fun value => (name value, value))

/-- A pass reads nodes one after the other and puts what they say into a table. -/
theorem foldlM_describes {α : Type} {read : Node → Attempt α} {describes : Node → α → Prop}
    {name : α → String} {nodes : List Node}
    (each : ∀ node ∈ nodes, Succeeds (describes node) (read node)) :
    Succeeds (DescribesTable describes name nodes)
      (nodes.foldlM (fun table node => do
        let found ← read node
        return table.put (name found) found) NameTable.empty) := by
  apply Gives.foldlM_prefix
  · exact ⟨[], .nil, NameTable.tabulates_empty⟩
  · intro before table described node isNode
    rcases described with ⟨values, described, tabulates⟩
    refine (each node isNode).bind fun found isFound => ?_
    refine ⟨values ++ [found], List.rel_append described (.cons isFound .nil), ?_⟩
    rw [List.map_append]
    exact tabulates.put (name found) found

/-- The nodes that a pass looks at are nodes of their kind. -/
theorem ofKind_of_mem_nodesOfKind {tree : SyntaxTree} {kind : Kind}
    (grammatical : tree.root.Grammatical source) (isNode : node ∈ nodesOfKind tree kind) :
    node.OfKind source kind := by
  rcases List.mem_filter.mp isNode with ⟨inTree, isOfKind⟩
  simp only [Bool.and_eq_true, beq_iff_eq] at isOfKind
  exact ⟨grammatical.of_mem_walk inTree, isOfKind.1, isOfKind.2⟩

/-- The declarations that a pass looks at are the children of the module. -/
theorem nodesOfKind_eq_parts {tree : SyntaxTree} {kind : Kind}
    (isModule : tree.root.OfKind source .translationUnit)
    (isDeclaration : kind ∈ Node.declarations) :
    nodesOfKind tree kind = tree.root.parts kind := by
  rw [← isModule.among_walk isDeclaration, nodesOfKind, Node.among]
  apply List.filter_congr
  intro node _
  by_cases isKind : node.kind? = some kind
  · rw [Node.isNamed_of_mem_declarations isDeclaration isKind, Bool.true_and]
  · simp [isKind]

theorem structuresOf_describes {tree : SyntaxTree}
    (grammatical : tree.root.Grammatical tree.source) :
    Succeeds (DescribesTable (DescribesStructure tree.source) Structure.name
      (nodesOfKind tree .structDeclaration)) (structuresOf tree) := by
  rw [structuresOf_eq]
  apply foldlM_describes
  intro node isNode
  exact readStructure_describes (ofKind_of_mem_nodesOfKind grammatical isNode)

end ShaderReflection.Reflection

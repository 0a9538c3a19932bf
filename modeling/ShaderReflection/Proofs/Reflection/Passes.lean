import ShaderReflection.Proofs.Reflection.Declarations
import ShaderReflection.Proofs.Tree.Spans

/-!
# Structures, functions and entry points of a parsed module

The first three passes over a syntax tree have faults for nodes that are not what they should be.
In a derivation tree there are no such nodes, so these passes always succeed, and what they give is
what the declarations say.
-/

namespace ShaderReflection.Reflection

open ShaderReflection.Tree ShaderReflection.Attempt

variable {source : List Char} {node : Node}

/-! ## Functions -/

/-- Behind the name of an attribute only the parentheses around its arguments are left out. -/
theorem filter_texts {opening closing : Node} {inside : List Node}
    (isOpening : opening.text source = "(") (isClosing : closing.text source = ")")
    (plain : ∀ part ∈ inside, part.text source ≠ "(" ∧ part.text source ≠ ")") :
    (((opening :: (inside ++ [closing])).map (Node.text source)).filter
      fun text => text != "(" && text != ")") = inside.map (Node.text source) := by
  have kept : ((inside.map (Node.text source)).filter fun text => text != "(" && text != ")") =
      inside.map (Node.text source) := by
    rw [List.filter_eq_self, List.forall_mem_map]
    intro part isPart
    simp [plain part isPart]
  rw [List.map_cons, List.map_append, List.map_singleton, isOpening, isClosing,
    List.filter_cons_of_neg (by simp), List.filter_append, kept]
  simp

theorem readAttributeText_eq {sign name : Node} {behind : List Node}
    (isSign : sign.isNamed = false) (isName : name.isNamed = true)
    (children : node.children = sign :: name :: behind) :
    readAttributeText source node = .ok ⟨name.text source, String.join
      ((behind.map (Node.text source)).filter fun text => text != "(" && text != ")")⟩ := by
  rw [readAttributeText, children, List.dropWhile_cons_of_pos (by simp [isSign]),
    List.dropWhile_cons_of_neg (by simp [isName])]
  rfl

/-- The reading never fails. Only in a plain node does it give back the arguments as they are. -/
theorem readAttributeText_describes (ofKind : node.OfKind source .attributeUse) :
    Succeeds (fun found => node.Plain source → DescribesMark source node found)
      (readAttributeText source node) := by
  rcases ofKind.exists_usesAttribute with ⟨name, inside, uses, arguments, -⟩
  have described := uses
  cases uses with
  | bare isSign isName children =>
      rw [readAttributeText_eq (Node.isNamed_of_symbol? isSign)
        (Node.symbol?_eq_nonterminal.mp isName).1 children]
      intro plain
      exact ⟨name, [], described, rfl⟩
  | @called sign opening closing inside isSign isName isOpening isClosing children =>
      rw [readAttributeText_eq (Node.isNamed_of_symbol? isSign)
        (Node.symbol?_eq_nonterminal.mp isName).1 children]
      intro plain
      have openingText : opening.chars source = ['('] := by
        have grammatical := ofKind.child (show opening ∈ node.children by simp [children])
        exact grammatical.chars_of_fixed isOpening "(" (by simp [Wgsl.fixedSpellings])
      have closingText : closing.chars source = [')'] := by
        have grammatical := ofKind.child (show closing ∈ node.children by simp [children])
        exact grammatical.chars_of_fixed isClosing ")" (by simp [Wgsl.fixedSpellings])
      have noParens : ∀ part ∈ inside, part.text source ≠ "(" ∧ part.text source ≠ ")" := by
        intro part isPart
        rcases arguments part isPart with ⟨isChild, symbol, isKnown, isSymbol⟩
        have different := plain.child isChild part part.mem_walk_self symbol isSymbol
          (Node.isArgument_of_mem_symbols symbol isKnown)
        have isText : (part.text source).toList = part.chars source := String.toList_ofList
        constructor
        · intro isParen
          rw [isParen] at isText
          exact different '(' (by decide) isText.symm
        · intro isParen
          rw [isParen] at isText
          exact different ')' (by decide) isText.symm
      rw [filter_texts _ _ noParens]
      · exact ⟨name, inside, described, rfl⟩
      · rw [Node.text, openingText]
      · rw [Node.text, closingText]

/-- What the parameters that have been read so far stand for. -/
def DescribesParameters (source : List Char) (structures : NameTable Structure) (start : List Input)
    (before : List Node) (inputs : List Input) : Prop :=
  ∃ parameters, List.Forall₂ (DescribesInput source) before parameters ∧
    inputs = start ++ parameters.flatMap (expand structures)

theorem readParameter_describes {structures : NameTable Structure} {start inputs : List Input}
    {before : List Node} (describes : DescribesParameters source structures start before inputs)
    (ofKind : node.OfKind source .parameter) :
    Succeeds (DescribesParameters source structures start (before ++ [node]))
      (readParameter source structures inputs node) := by
  rcases describes with ⟨parameters, described, rfl⟩
  rw [readParameter, ofKind.kind_eq]
  refine (readInput_describes ofKind (.inr rfl)).bind fun input found => ?_
  have later : DescribesParameters source structures start (before ++ [node])
      (start ++ parameters.flatMap (expand structures) ++ expand structures input) := by
    refine ⟨parameters ++ [input], List.rel_append described (.cons found .nil), ?_⟩
    rw [List.flatMap_append, List.flatMap_singleton, List.append_assoc]
  rw [expand] at later
  split
  · rename_i found isFound
    rw [isFound] at later
    exact later
  · rename_i isFound
    rw [isFound] at later
    exact later

/-- What the named children of a function that have been read so far say. -/
structure DescribesDraft (source : List Char) (structures : NameTable Structure) (node : Node)
    (before : List Node) (draft : SignatureDraft) : Prop where
  attributes : node.Plain source →
    ∃ marks, List.Forall₂ (DescribesMark source) (Node.among .attributeUse before) marks ∧
      draft.attributes.Tabulates (marks.map fun mark => (mark.name, mark.value))
  inputs : DescribesParameters source structures []
    ((Node.among .parameterList before).flatMap fun list => list.parts .parameter) draft.inputs
  returnType : match (Node.among .functionReturnType before).getLast? with
    | none => draft.returnType = none
    | some part =>
        ∃ type, part.parts .typeDeclaration = [type] ∧ draft.returnType = some (type.text source)

section Draft

variable {structures : NameTable Structure} {before : List Node} {draft : SignatureDraft}
  {child : Node} (describes : DescribesDraft source structures node before draft)
include describes

/-- A child of another kind adds nothing. -/
theorem DescribesDraft.skip {inner : Kind} (isInner : child.kind? = some inner)
    (isOther : inner ∉ [.attributeUse, .parameterList, .functionReturnType]) :
    DescribesDraft source structures node (before ++ [child]) draft := by
  simp only [List.mem_cons, List.not_mem_nil, or_false, not_or] at isOther
  constructor
  · rw [Node.among_concat_of_ne isInner isOther.1]
    exact describes.attributes
  · rw [Node.among_concat_of_ne isInner isOther.2.1]
    exact describes.inputs
  · rw [Node.among_concat_of_ne isInner isOther.2.2]
    exact describes.returnType

theorem DescribesDraft.addAttribute (isAttribute : child.kind? = some .attributeUse)
    {found : Attribute} (mark : node.Plain source → DescribesMark source child found) :
    DescribesDraft source structures node (before ++ [child])
      { draft with attributes := draft.attributes.put found.name found.value } := by
  constructor
  · intro plain
    rcases describes.attributes plain with ⟨marks, described, tabulates⟩
    refine ⟨marks ++ [found], ?_, ?_⟩
    · rw [Node.among_concat_of_eq isAttribute]
      exact List.rel_append described (.cons (mark plain) .nil)
    · rw [List.map_append]
      exact tabulates.put found.name found.value
  · rw [Node.among_concat_of_ne isAttribute (by decide)]
    exact describes.inputs
  · rw [Node.among_concat_of_ne isAttribute (by decide)]
    exact describes.returnType

theorem DescribesDraft.addParameters (isList : child.kind? = some .parameterList)
    {inputs : List Input}
    (further : DescribesParameters source structures draft.inputs (child.parts .parameter) inputs) :
    DescribesDraft source structures node (before ++ [child]) { draft with inputs } := by
  constructor
  · rw [Node.among_concat_of_ne isList (by decide)]
    exact describes.attributes
  · rcases describes.inputs with ⟨parameters, described, isInputs⟩
    rcases further with ⟨more, moreDescribed, rfl⟩
    refine ⟨parameters ++ more, ?_, ?_⟩
    · rw [Node.among_concat_of_eq isList, List.flatMap_append, List.flatMap_singleton]
      exact List.rel_append described moreDescribed
    · rw [isInputs, List.flatMap_append, List.append_assoc]
  · rw [Node.among_concat_of_ne isList (by decide)]
    exact describes.returnType

theorem DescribesDraft.setReturnType (isReturn : child.kind? = some .functionReturnType)
    {type : Node} (isType : child.parts .typeDeclaration = [type]) :
    DescribesDraft source structures node (before ++ [child])
      { draft with returnType := some (type.text source) } := by
  constructor
  · rw [Node.among_concat_of_ne isReturn (by decide)]
    exact describes.attributes
  · rw [Node.among_concat_of_ne isReturn (by decide)]
    exact describes.inputs
  · rw [Node.among_concat_of_eq isReturn, List.getLast?_concat]
    exact ⟨type, isType, rfl⟩

end Draft

/-- All named children of a list of parameters are parameters. -/
theorem namedChildren_parameterList (ofKind : node.OfKind source .parameterList) :
    node.namedChildren = node.parts .parameter := by
  rw [← Node.among_namedChildren (by decide), Node.among, eq_comm, List.filter_eq_self]
  intro child isChild
  rcases ofKind.exists_kind [.parameter] rfl isChild with ⟨inner, isInner, childOfKind⟩
  rw [childOfKind.isKind, List.mem_singleton.mp isInner]
  exact beq_self_eq_true _

theorem readFunctionChild_describes {structures : NameTable Structure} {name : String}
    {before : List Node} {draft : SignatureDraft} {child : Node}
    (describes : DescribesDraft source structures node before draft)
    (ofKind : node.OfKind source .functionDeclaration) (isChild : child ∈ node.namedChildren) :
    Succeeds (DescribesDraft source structures node (before ++ [child]))
      (readFunctionChild source structures name draft child) := by
  rcases ofKind.exists_kind [.attributeUse, .parameterList, .functionReturnType, .identifier,
    .compoundStatement] rfl isChild with ⟨inner, isInner, childOfKind⟩
  rw [readFunctionChild, childOfKind.kind_eq]
  simp only [List.mem_cons, List.not_mem_nil, or_false] at isInner
  rcases isInner with rfl | rfl | rfl | rfl | rfl
  · refine (readAttributeText_describes childOfKind).bind fun found mark => ?_
    refine describes.addAttribute childOfKind.isKind fun plain => ?_
    exact mark (plain.child (List.mem_filter.mp isChild).1)
  · have folded : Succeeds
        (DescribesParameters source structures draft.inputs child.namedChildren)
        (child.namedChildren.foldlM (readParameter source structures) draft.inputs) := by
      apply Gives.foldlM_prefix
      · exact ⟨[], .nil, by simp⟩
      · intro before inputs described parameter isParameter
        rw [namedChildren_parameterList childOfKind] at isParameter
        exact readParameter_describes described (childOfKind.part (by decide) isParameter)
    rw [namedChildren_parameterList childOfKind] at folded ⊢
    exact folded.bind fun inputs further => describes.addParameters childOfKind.isKind further
  · rcases childOfKind.parts_eq_singleton .typeDeclaration (by decide) rfl rfl with
      ⟨type, isType, -⟩
    rw [childOfKind.field_eq_head? "type" rfl, isType]
    exact describes.setReturnType childOfKind.isKind isType
  · exact describes.skip childOfKind.isKind (by decide)
  · exact describes.skip childOfKind.isKind (by decide)

/-- The signature of a function has the name of the function, and in a plain node it is all that
the declaration says. -/
structure ReadsFunction (source : List Char) (structures : NameTable Structure) (node : Node)
    (signature : Signature) : Prop where
  name : DescribesName source node signature.name
  describes : node.Plain source → DescribesSignature source structures node signature

theorem readFunction_reads (ofKind : node.OfKind source .functionDeclaration)
    (structures : NameTable Structure) :
    Succeeds (ReadsFunction source structures node) (readFunction source structures node) := by
  rcases ofKind.parts_eq_singleton .identifier (by decide) rfl rfl with ⟨name, isName, -⟩
  rw [readFunction, ofKind.kind_eq, ofKind.field_eq_head? "name" rfl, isName]
  have folded : Succeeds (DescribesDraft source structures node node.namedChildren)
      (node.namedChildren.foldlM (readFunctionChild source structures (name.text source))
        ⟨.empty, [], none⟩) := by
    apply Gives.foldlM_prefix
    · exact ⟨fun _ => ⟨[], .nil, NameTable.tabulates_empty⟩, ⟨[], .nil, rfl⟩, rfl⟩
    · intro before draft describes child isChild
      exact readFunctionChild_describes describes ofKind isChild
  refine folded.bind fun draft describes => ⟨⟨name, isName, rfl⟩, fun plain => ?_⟩
  have attributes := describes.attributes plain
  have inputs := describes.inputs
  have returnType := describes.returnType
  rw [Node.among_namedChildren (by decide)] at attributes inputs returnType
  refine ⟨⟨name, isName, rfl⟩, attributes, inputs, ?_⟩
  rcases ofKind.parts_eq_nil_or .functionReturnType (by decide) rfl with isNone | ⟨part, isPart, -⟩
  · rw [isNone] at returnType
    exact .inl ⟨isNone, returnType⟩
  · rw [isPart] at returnType
    rcases returnType with ⟨type, isType, isText⟩
    exact .inr ⟨part, type, isPart, isType, isText⟩

section Tree

variable {tree : SyntaxTree} (grammatical : tree.root.Grammatical tree.source)
include grammatical

theorem structuresOf_succeeds : Succeeds (fun _ => True) (structuresOf tree) :=
  (structuresOf_describes grammatical).weaken (fun _ => id) fun _ _ => trivial

theorem functionsOf_reads (structures : NameTable Structure) :
    Succeeds (DescribesTable (ReadsFunction tree.source structures) Signature.name
      (nodesOfKind tree .functionDeclaration)) (functionsOf tree structures) := by
  rw [functionsOf_eq]
  apply foldlM_describes
  intro node isNode
  exact readFunction_reads (ofKind_of_mem_nodesOfKind grammatical isNode) structures

end Tree

/-- A table has a signature for every function declaration of a tree. -/
def Covers (tree : SyntaxTree) (functions : NameTable Signature) : Prop :=
  ∀ node ∈ nodesOfKind tree .functionDeclaration, ∀ name,
    node.field "name" = .ok (some name) → (functions.get? (name.text tree.source)).isSome

theorem functionsOf_succeeds {tree : SyntaxTree} (grammatical : tree.root.Grammatical tree.source)
    (structures : NameTable Structure) :
    Succeeds (Covers tree) (functionsOf tree structures) := by
  refine (functionsOf_reads grammatical structures).weaken (fun _ => id) ?_
  rintro functions ⟨signatures, described, tabulates⟩ node isNode name isName
  have ofKind := ofKind_of_mem_nodesOfKind grammatical isNode
  rcases List.mem_iff_get.mp isNode with ⟨⟨index, inNodes⟩, rfl⟩
  have inSignatures : index < signatures.length := described.length_eq ▸ inNodes
  rcases (described.get inNodes inSignatures).name with ⟨only, isOnly, isText⟩
  rw [ofKind.field_eq_head? "name" rfl, isOnly] at isName
  cases isName
  rw [tabulates.isSome_get?]
  exact ⟨_, List.mem_map_of_mem (List.get_mem signatures ⟨index, inSignatures⟩), isText⟩

/-! ## Entry points -/

/-- An attribute has a named child, which is its name. -/
theorem exists_attributeName (ofKind : node.OfKind source .attributeUse) :
    ∃ name others, node.namedChildren = name :: others := by
  rcases ofKind.exists_child .identifier rfl with ⟨child, isChild, -⟩
  exact List.exists_cons_of_ne_nil (List.ne_nil_of_mem isChild)

theorem Stage.ofName?_eq_some {text : String} {stage : Stage} :
    Stage.ofName? text = some stage ↔ text = stage.name := by
  constructor
  · intro found
    have isStage := List.find?_some found
    exact (beq_iff_eq.mp isStage).symm
  · intro isName
    rw [isName]
    cases stage <;> rfl

theorem Stage.name_injective {left right : Stage} (same : left.name = right.name) :
    left = right := by
  have found := Stage.ofName?_eq_some.mpr same
  rw [Stage.ofName?_eq_some.mpr rfl] at found
  exact Option.some.inj found

theorem EntryPoints.ofStage_add (entryPoints : EntryPoints) (stage other : Stage)
    (signature : Signature) :
    (entryPoints.add stage signature).ofStage other =
      entryPoints.ofStage other ++ if other = stage then [signature] else [] := by
  cases stage <;> cases other <;> simp [EntryPoints.add, EntryPoints.ofStage]

/-- The name of an attribute. -/
def markName? (source : List Char) (node : Node) : Option String :=
  node.namedChildren.head?.map (Node.text source)

/-- What the named children of a function that have been read so far mark. -/
structure DescribesStages (source : List Char) (start : EntryPoints) (signature : Signature)
    (before : List Node) (draft : StageDraft) : Prop where
  seen : ∀ stage, stage ∈ draft.seen ↔
    some stage.name ∈ (Node.among .attributeUse before).map (markName? source)
  entries : ∀ stage, draft.entryPoints.ofStage stage =
    start.ofStage stage ++ if stage ∈ draft.seen then [signature] else []

theorem readStage_describes {start : EntryPoints} {signature : Signature} {before : List Node}
    {draft : StageDraft} {child : Node} {functions : NameTable Signature} {name : String}
    (describes : DescribesStages source start signature before draft)
    (grammatical : child.Grammatical source) (isNamed : child.isNamed = true)
    (isSignature : functions.get? name = some signature) :
    Succeeds (DescribesStages source start signature (before ++ [child]))
      (readStage source functions name draft child) := by
  rcases grammatical.exists_kind with ⟨kind, isKind, isOk⟩
  rw [readStage, isOk]
  by_cases isAttribute : kind = .attributeUse
  · subst isAttribute
    rcases exists_attributeName ⟨grammatical, isNamed, isKind⟩ with ⟨mark, others, isFull⟩
    have isMark : markName? source child = some (mark.text source) := by
      rw [markName?, isFull]
      rfl
    have seen : ∀ stage : Stage,
        some stage.name ∈ (Node.among .attributeUse (before ++ [child])).map (markName? source) ↔
          stage ∈ draft.seen ∨ stage.name = mark.text source := by
      intro stage
      rw [Node.among_concat_of_eq isKind, List.map_append, List.mem_append, ← describes.seen stage,
        List.map_singleton, List.mem_singleton, isMark, Option.some.injEq]
    have isOld : ∀ stage : Stage, (stage.name = mark.text source → stage ∈ draft.seen) →
        (stage ∈ draft.seen ↔
          some stage.name ∈ (Node.among .attributeUse (before ++ [child])).map
            (markName? source)) := by
      intro stage isSeen
      rw [seen stage]
      exact ⟨.inl, fun either => either.elim id isSeen⟩
    simp only [isFull, bind, Except.bind, if_true, pure, Except.pure]
    split
    · rename_i noStage
      refine ⟨fun stage => isOld stage ?_, describes.entries⟩
      intro isStage
      rw [Stage.ofName?_eq_some.mpr isStage.symm] at noStage
      cases noStage
    rename_i stage isStage
    have isText := Stage.ofName?_eq_some.mp isStage
    split
    · rename_i isSeen
      refine ⟨fun other => isOld other ?_, describes.entries⟩
      intro isOther
      rw [Stage.name_injective (isOther.trans isText)]
      exact isSeen
    · rename_i notSeen
      rw [isSignature]
      constructor
      · intro other
        rw [seen other, List.mem_append, List.mem_singleton, isText]
        exact or_congr_right ⟨fun same => same ▸ rfl, Stage.name_injective⟩
      · intro other
        rw [EntryPoints.ofStage_add, describes.entries other]
        by_cases isOther : other = stage
        · simp [isOther, notSeen]
        · simp [isOther]
  · simp only [isAttribute, bind, Except.bind, if_false, pure, Except.pure]
    refine ⟨?_, describes.entries⟩
    rw [Node.among_concat_of_ne isKind isAttribute]
    exact describes.seen

/-- Each stage that a declaration is marked with gets what the table has under its name, once. -/
theorem readStages_describes {functions : NameTable Signature} {start : EntryPoints}
    {name : Node} {signature : Signature} (ofKind : node.OfKind source .functionDeclaration)
    (isName : node.parts .identifier = [name])
    (isSignature : functions.get? (name.text source) = some signature) :
    Succeeds (fun entryPoints => ∀ stage, entryPoints.ofStage stage = start.ofStage stage ++
        if some stage.name ∈ (node.parts .attributeUse).map (markName? source)
          then [signature] else [])
      (readStages source functions start node) := by
  rw [readStages, ofKind.field_eq_head? "name" rfl, isName]
  have folded : Succeeds (DescribesStages source start signature node.namedChildren)
      (node.namedChildren.foldlM (readStage source functions (name.text source)) ⟨start, []⟩) := by
    apply Gives.foldlM_prefix
    · exact ⟨by simp [Node.among], by simp⟩
    · intro before draft described child isChild
      rcases List.mem_filter.mp isChild with ⟨inChildren, isNamed⟩
      exact readStage_describes described (ofKind.child inChildren) isNamed isSignature
  refine folded.bind fun draft described => ?_
  intro stage
  show draft.entryPoints.ofStage stage = _
  have seen := described.seen stage
  rw [Node.among_namedChildren (by decide)] at seen
  rw [described.entries stage]
  simp only [seen]

theorem entryPointsOf_succeeds {tree : SyntaxTree}
    (grammatical : tree.root.Grammatical tree.source) {functions : NameTable Signature}
    (covers : Covers tree functions) :
    Succeeds (fun _ => True) (entryPointsOf tree functions) := by
  rw [entryPointsOf_eq]
  apply Gives.foldlM trivial
  intro entryPoints _ node isNode
  have ofKind := ofKind_of_mem_nodesOfKind grammatical isNode
  rcases ofKind.parts_eq_singleton .identifier (by decide) rfl rfl with ⟨name, isName, -⟩
  have isField : node.field "name" = .ok (some name) := by
    rw [ofKind.field_eq_head? "name" rfl, isName]
    rfl
  rcases Option.isSome_iff_exists.mp (covers node isNode name isField) with ⟨signature, isSignature⟩
  exact (readStages_describes ofKind isName isSignature).weaken (fun _ => id) fun _ _ => trivial

end ShaderReflection.Reflection

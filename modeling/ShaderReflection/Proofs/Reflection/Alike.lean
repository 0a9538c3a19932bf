import ShaderReflection.Proofs.Reflection.Declarations
import ShaderReflection.Proofs.Tree.Shifting
import ShaderReflection.Proofs.Tree.Spans
import ShaderReflection.Reflection.Reflect

/-!
# Nodes that say the same

Reflection reads labels and texts and never asks where a node stands. So declarations that are
alike, each in its own source, are read alike, faults included. The body of a function is not read
at all: there the declarations may differ.
-/

namespace ShaderReflection.Reflection

open ShaderReflection.Tree

variable {left right : List Char} {node other : Node} {nodes others : List Node}

/-! ## Rows that are related -/

section Rows

variable {related : Node → Node → Prop}

theorem map_eq_of_forall₂ {β : Type} {read readOther : Node → β}
    (rows : List.Forall₂ related nodes others)
    (same : ∀ node other, related node other → read node = readOther other) :
    nodes.map read = others.map readOther := by
  induction rows with
  | nil => rfl
  | cons first _ induction => rw [List.map_cons, List.map_cons, same _ _ first, induction]

theorem forall₂_filter {test : Node → Bool} {chosen : Node → Node → Prop}
    (rows : List.Forall₂ related nodes others)
    (same : ∀ node other, related node other → test node = test other)
    (choose : ∀ node other, related node other → test other = true → chosen node other) :
    List.Forall₂ chosen (nodes.filter test) (others.filter test) := by
  induction rows with
  | nil => exact .nil
  | cons first _ induction =>
      rw [List.filter_cons, List.filter_cons, same _ _ first]
      split
      · rename_i isChosen
        exact .cons (choose _ _ first isChosen) induction
      · exact induction

theorem forall₂_dropWhile {test : Node → Bool} (rows : List.Forall₂ related nodes others)
    (same : ∀ node other, related node other → test node = test other) :
    List.Forall₂ related (nodes.dropWhile test) (others.dropWhile test) := by
  induction rows with
  | nil => exact .nil
  | cons first rest induction =>
      rw [List.dropWhile_cons, List.dropWhile_cons, same _ _ first]
      split
      · exact induction
      · exact .cons first rest

theorem foldlM_eq_of_forall₂ {β : Type} {step stepOther : β → Node → Attempt β}
    (rows : List.Forall₂ related nodes others)
    (same : ∀ sofar node other, related node other → step sofar node = stepOther sofar other)
    (start : β) : nodes.foldlM step start = others.foldlM stepOther start := by
  induction rows generalizing start with
  | nil => rfl
  | cons first _ induction =>
      rw [List.foldlM_cons, List.foldlM_cons, same _ _ _ first]
      congr 1
      funext later
      exact induction later

theorem mapM_eq_of_forall₂ {β : Type} {read readOther : Node → Attempt β}
    (rows : List.Forall₂ related nodes others)
    (same : ∀ node other, related node other → read node = readOther other) :
    nodes.mapM read = others.mapM readOther := by
  induction rows with
  | nil => rfl
  | cons first _ induction => rw [List.mapM_cons, List.mapM_cons, same _ _ first, induction]

end Rows

/-! ## Nodes -/

/-- Two nodes with the same labels and texts, all the way down. -/
inductive Alike (left right : List Char) : Node → Node → Prop
  | named {label : Label Kind} {span place : Option Text.Span} {children found : List Node}
      (sameText : (Node.named label span children).chars left =
        (Node.named label place found).chars right)
      (below : List.Forall₂ (Alike left right) children found) :
      Alike left right (.named label span children) (.named label place found)
  | token {label : Label Wgsl.Terminal} {span place : Text.Span}
      (sameText : span.slice left = place.slice right) :
      Alike left right (.token label span) (.token label place)

namespace Alike

variable (alike : Alike left right node other)

include alike

theorem kind_eq : node.kind = other.kind := by
  cases alike with
  | @named label => cases label <;> rfl
  | token sameText => rfl

theorem kind?_eq : node.kind? = other.kind? := by
  cases alike with
  | @named label => cases label <;> rfl
  | token sameText => rfl

theorem isNamed_eq : node.isNamed = other.isNamed := by
  cases alike <;> rfl

theorem text_eq : node.text left = other.text right := by
  cases alike with
  | named sameText below => rw [Node.text, Node.text, sameText]
  | token sameText => exact congrArg String.ofList sameText

theorem type_eq : node.type left = other.type right := by
  cases alike with
  | @named label => cases label <;> rfl
  | @token label _ _ sameText => cases label <;> simp only [Node.type, sameText]

theorem children : List.Forall₂ (Alike left right) node.children other.children := by
  cases alike with
  | named sameText below => exact below
  | token sameText => exact .nil

theorem namedChildren :
    List.Forall₂ (Alike left right) node.namedChildren other.namedChildren :=
  forall₂_filter alike.children (fun _ _ alike => alike.isNamed_eq) fun _ _ alike _ => alike

end Alike

/-- What the parts of a node hold in two texts, in each with a shift of its own. -/
def HoldsAlike (left right : List Char) (first second : Nat) (nodes : List Node) : Prop :=
  ∀ part ∈ nodes, ∃ span, part.span? = some span ∧
    (span.shift first).slice left = (span.shift second).slice right

mutual

theorem alike_shift {first second : Nat} : (node : Node) →
    HoldsAlike left right first second node.walk →
    Alike left right (node.shift first) (node.shift second)
  | .named label span children, holds => by
      rw [Node.walk_named] at holds
      rcases List.forall_mem_cons.mp holds with ⟨⟨place, isPlace, same⟩, below⟩
      cases isPlace
      rw [Node.shift, Node.shift]
      exact .named same (alike_shiftAll children below)
  | .token label span, holds => by
      rcases holds _ (Node.mem_walk_token.mpr rfl) with ⟨place, isPlace, same⟩
      cases isPlace
      exact .token same

theorem alike_shiftAll {first second : Nat} : (nodes : List Node) →
    HoldsAlike left right first second (nodes.flatMap Node.walk) →
    List.Forall₂ (Alike left right) (Node.shiftAll first nodes) (Node.shiftAll second nodes)
  | [], _ => .nil
  | node :: rest, holds => by
      rw [List.flatMap_cons] at holds
      rcases List.forall_mem_append.mp holds with ⟨inNode, inRest⟩
      exact .cons (alike_shift node inNode) (alike_shiftAll rest inRest)

end

/-- Alike nodes that were found, or no node at all. -/
inductive AlikeFound (left right : List Char) :
    Attempt (Option Node) → Attempt (Option Node) → Prop
  | failed (fault : Fault) : AlikeFound left right (.error fault) (.error fault)
  | absent : AlikeFound left right (.ok none) (.ok none)
  | present {node other : Node} (alike : Alike left right node other) :
      AlikeFound left right (.ok (some node)) (.ok (some other))

theorem AlikeFound.bind_eq {β : Type} {found foundOther : Attempt (Option Node)}
    {next nextOther : Option Node → Attempt β} (alike : AlikeFound left right found foundOther)
    (absent : next none = nextOther none)
    (present : ∀ node other, Alike left right node other →
      next (some node) = nextOther (some other)) :
    (found >>= next) = (foundOther >>= nextOther) := by
  cases alike with
  | failed fault => rfl
  | absent => exact absent
  | present alike => exact present _ _ alike

/-- In rows with the same kinds the same child is found. -/
theorem firstOfKind_related {related : Node → Node → Prop} {kind : Kind}
    (rows : List.Forall₂ related nodes others)
    (sameKind : ∀ node other, related node other → node.kind = other.kind)
    (alike : ∀ node other, related node other → node.kind = .ok kind →
      Alike left right node other) :
    AlikeFound left right (Node.firstOfKind kind nodes) (Node.firstOfKind kind others) := by
  induction rows with
  | nil => exact .absent
  | @cons first found _ _ areRelated _ induction =>
      rw [Node.firstOfKind, Node.firstOfKind, ← sameKind _ _ areRelated]
      cases isKind : first.kind with
      | error fault => exact .failed fault
      | ok inner =>
          simp only [bind, Except.bind]
          split
          · rename_i isFound
            exact .present (alike _ _ areRelated (isFound ▸ isKind))
          · exact induction

theorem firstOfKind_alike (rows : List.Forall₂ (Alike left right) nodes others) (kind : Kind) :
    AlikeFound left right (Node.firstOfKind kind nodes) (Node.firstOfKind kind others) :=
  firstOfKind_related rows (fun _ _ alike => alike.kind_eq) fun _ _ alike _ => alike

theorem Alike.field (alike : Alike left right node other) (name : String) :
    AlikeFound left right (node.field name) (other.field name) := by
  rw [Node.field, Node.field, ← alike.kind_eq]
  cases node.kind with
  | error fault => exact .failed fault
  | ok kind =>
      simp only [bind, Except.bind]
      split
      · exact .absent
      · exact firstOfKind_alike alike.children _

/-! ## Members and parameters -/

theorem readDeclared_alike (alike : Alike left right node other) :
    readDeclared left node = readDeclared right other := by
  have incomplete : Fault.incompleteDeclaration (node.text left) =
      .incompleteDeclaration (other.text right) := by rw [alike.text_eq]
  refine (alike.field "name").bind_eq ?_ fun name otherName sameName => ?_
  · refine (alike.field "type").bind_eq ?_ fun type otherType sameType => ?_
    · exact congrArg throw incomplete
    · exact congrArg throw incomplete
  · refine (alike.field "type").bind_eq ?_ fun type otherType sameType => ?_
    · exact congrArg throw incomplete
    · simp only [sameName.text_eq, sameType.text_eq]

theorem readAttribute_alike (alike : Alike left right node other) :
    readAttribute left node = readAttribute right other := by
  have rows := alike.namedChildren
  rw [readAttribute, readAttribute]
  generalize node.namedChildren = named, other.namedChildren = otherNamed at rows ⊢
  cases rows with
  | nil => rfl
  | cons sameName rest =>
      cases rest with
      | nil => simp only [sameName.text_eq]
      | cons sameValue _ => simp only [sameName.text_eq, sameValue.text_eq]

theorem readInput_alike (alike : Alike left right node other) :
    readInput left node = readInput right other := by
  have step : ∀ draft child found, Alike left right child found →
      readInputChild left node draft child = readInputChild right other draft found := by
    intro draft child found sameChild
    simp only [readInputChild, sameChild.kind_eq, readDeclared_alike sameChild,
      readAttribute_alike sameChild, sameChild.type_eq, alike.type_eq, alike.text_eq]
  rw [readInput, readInput, foldlM_eq_of_forall₂ alike.namedChildren step, alike.type_eq,
    alike.text_eq]

/-! ## Structures -/

theorem readStructure_alike (alike : Alike left right node other) :
    readStructure left node = readStructure right other := by
  have step : ∀ name members child found, Alike left right child found →
      readStructureChild left name members child =
        readStructureChild right name members found := by
    intro name members child found sameChild
    simp only [readStructureChild, sameChild.kind_eq, readInput_alike sameChild,
      sameChild.type_eq]
  rw [readStructure, readStructure, alike.kind_eq, alike.type_eq]
  congr 1
  funext kind
  by_cases isStructure : kind = .structDeclaration
  · simp only [isStructure, if_true]
    refine (alike.field "name").bind_eq (by rw [alike.text_eq]) fun name otherName sameName => ?_
    simp only [sameName.text_eq, foldlM_eq_of_forall₂ alike.namedChildren (step _)]
  · simp only [isStructure, if_false]
    rfl

/-! ## Bindings -/

theorem readIntegerAttribute_alike (alike : Alike left right node other) (name : String) :
    readIntegerAttribute left node name = readIntegerAttribute right other name := by
  have rows := alike.namedChildren
  rw [readIntegerAttribute, readIntegerAttribute]
  generalize node.namedChildren = named, other.namedChildren = otherNamed at rows ⊢
  cases rows with
  | nil => rfl
  | cons sameName rest =>
      cases rest with
      | nil => rfl
      | cons sameValue _ => simp only [sameValue.kind_eq, sameValue.type_eq, sameValue.text_eq]

theorem readSpace_alike (alike : Alike left right node other) (draft : BindingDraft) :
    readSpace left node draft = readSpace right other draft := by
  refine (alike.field "qualifier").bind_eq rfl fun qualifier otherQualifier sameQualifier => ?_
  refine (sameQualifier.field "address_space").bind_eq rfl fun space otherSpace sameSpace => ?_
  simp only [sameSpace.text_eq]

theorem bufferType_alike (alike : Alike left right node other) :
    bufferType left node = bufferType right other := by
  have rows := alike.namedChildren
  rw [bufferType, bufferType]
  generalize node.namedChildren = named, other.namedChildren = otherNamed at rows ⊢
  cases rows with
  | nil => exact alike.text_eq
  | cons sameFirst _ => exact sameFirst.text_eq

theorem readNameAndType_alike (alike : Alike left right node other) (draft : BindingDraft) :
    readNameAndType left node draft = readNameAndType right other draft := by
  refine (firstOfKind_alike alike.children _).bind_eq rfl fun found otherFound sameFound => ?_
  simp only [readDeclared_alike sameFound]
  congr 1
  funext declared
  refine (sameFound.field "type").bind_eq rfl fun type otherType sameType => ?_
  simp only [Option.map_some, bufferType_alike sameType]

theorem readBindingChild_alike (alike : Alike left right node other) (draft : BindingDraft) :
    readBindingChild left draft node = readBindingChild right draft other := by
  have rows := alike.namedChildren
  simp only [readBindingChild, alike.kind_eq, alike.type_eq, readSpace_alike alike,
    readNameAndType_alike alike, readIntegerAttribute_alike alike]
  generalize node.namedChildren = named, other.namedChildren = otherNamed at rows ⊢
  congr 1
  funext kind
  split
  · cases rows with
    | nil => rfl
    | cons sameMark _ => simp only [sameMark.text_eq]
  · rfl
  · rfl

theorem readBinding_alike (alike : Alike left right node other) :
    readBinding left node = readBinding right other := by
  have folded := foldlM_eq_of_forall₂ alike.namedChildren
    (fun draft _ _ sameChild => readBindingChild_alike sameChild draft) BindingDraft.empty
  rw [readBinding, readBinding, alike.kind_eq, alike.type_eq, alike.text_eq, folded]

/-! ## Functions -/

/-- Parts of functions that are alike, or bodies, which need not be. -/
def AlikePart (left right : List Char) (node other : Node) : Prop :=
  Alike left right node other ∨
    node.kind = .ok .compoundStatement ∧ other.kind = .ok .compoundStatement

/-- Functions that are alike but for their bodies. -/
structure AlikeFunctions (left right : List Char) (node other : Node) : Prop where
  kind : node.kind = .ok .functionDeclaration
  otherKind : other.kind = .ok .functionDeclaration
  hasName : ∃ name, node.field "name" = .ok (some name)
  parts : List.Forall₂ (AlikePart left right) node.children other.children

theorem AlikePart.kind_eq (alike : AlikePart left right node other) : node.kind = other.kind := by
  rcases alike with alike | ⟨isBody, otherIsBody⟩
  · exact alike.kind_eq
  · rw [isBody, otherIsBody]

theorem isNamed_of_kind (isBody : node.kind = .ok .compoundStatement) : node.isNamed = true := by
  cases node with
  | named label span children => rfl
  | token label span => cases isBody

theorem AlikePart.isNamed_eq (alike : AlikePart left right node other) :
    node.isNamed = other.isNamed := by
  rcases alike with alike | ⟨isBody, otherIsBody⟩
  · exact alike.isNamed_eq
  · rw [isNamed_of_kind isBody, isNamed_of_kind otherIsBody]

theorem AlikeFunctions.namedChildren (alike : AlikeFunctions left right node other) :
    List.Forall₂ (AlikePart left right) node.namedChildren other.namedChildren :=
  forall₂_filter alike.parts (fun _ _ alike => alike.isNamed_eq) fun _ _ alike _ => alike

/-- The names of two such functions. -/
theorem AlikeFunctions.exists_name (alike : AlikeFunctions left right node other) :
    ∃ name otherName, node.field "name" = .ok (some name) ∧
      other.field "name" = .ok (some otherName) ∧ Alike left right name otherName := by
  have found : AlikeFound left right (node.field "name") (other.field "name") := by
    rw [Node.field, Node.field, alike.kind, alike.otherKind]
    refine firstOfKind_related alike.parts (fun _ _ part => part.kind_eq) ?_
    rintro child found (alike | ⟨isBody, -⟩) isName
    · exact alike
    · rw [isBody] at isName
      cases isName
  rcases alike.hasName with ⟨name, isName⟩
  rw [isName] at found
  generalize isOther : other.field "name" = result at found
  cases found with
  | present alike => exact ⟨name, _, isName, rfl, alike⟩

theorem readAttributeText_alike (alike : Alike left right node other) :
    readAttributeText left node = readAttributeText right other := by
  have rows : List.Forall₂ (Alike left right)
      (node.children.dropWhile fun child => !child.isNamed)
      (other.children.dropWhile fun child => !child.isNamed) :=
    forall₂_dropWhile alike.children fun _ _ alike => by rw [alike.isNamed_eq]
  rw [readAttributeText, readAttributeText, alike.type_eq]
  generalize (node.children.dropWhile fun child => !child.isNamed) = behind,
    (other.children.dropWhile fun child => !child.isNamed) = otherBehind at rows ⊢
  cases rows with
  | nil => rfl
  | cons sameName rest =>
      simp only [sameName.text_eq, map_eq_of_forall₂ rest fun _ _ alike => alike.text_eq]

theorem readParameter_alike (alike : Alike left right node other)
    (structures : NameTable Structure) (inputs : List Input) :
    readParameter left structures inputs node = readParameter right structures inputs other := by
  rw [readParameter, readParameter, alike.kind_eq, alike.type_eq, readInput_alike alike]

theorem readFunctionChild_alike (alike : AlikePart left right node other)
    (structures : NameTable Structure) (name : String) (draft : SignatureDraft) :
    readFunctionChild left structures name draft node =
      readFunctionChild right structures name draft other := by
  rcases alike with alike | ⟨isBody, otherIsBody⟩
  · have inputs := foldlM_eq_of_forall₂ alike.namedChildren
      (fun inputs _ _ sameChild => readParameter_alike sameChild structures inputs) draft.inputs
    simp only [readFunctionChild, alike.kind_eq, readAttributeText_alike alike, inputs,
      alike.type_eq]
    congr 1
    funext kind
    split
    · rfl
    · rfl
    · refine (alike.field "type").bind_eq rfl fun type otherType sameType => ?_
      simp only [Option.map_some, sameType.text_eq]
    · rfl
    · rfl
    · rfl
  · rw [readFunctionChild, readFunctionChild, isBody, otherIsBody]
    rfl

theorem readFunction_eq {name : Node} (isFunction : node.kind = .ok .functionDeclaration)
    (isName : node.field "name" = .ok (some name)) (source : List Char)
    (structures : NameTable Structure) :
    readFunction source structures node =
      (node.namedChildren.foldlM (readFunctionChild source structures (name.text source))
        ⟨.empty, [], none⟩).map fun draft =>
          ⟨name.text source, draft.attributes, draft.inputs, draft.returnType⟩ := by
  rw [readFunction, isFunction, isName]
  rfl

/-- The signature of a function does not depend on its body. -/
theorem readFunction_alike (alike : AlikeFunctions left right node other)
    (structures : NameTable Structure) :
    readFunction left structures node = readFunction right structures other := by
  rcases alike.exists_name with ⟨name, otherName, isName, isOtherName, sameName⟩
  have folded := foldlM_eq_of_forall₂ alike.namedChildren
    (fun draft _ _ part => readFunctionChild_alike part structures (otherName.text right) draft)
  rw [readFunction_eq alike.kind isName, readFunction_eq alike.otherKind isOtherName,
    sameName.text_eq, folded]

/-! ## Entry points -/

theorem readStage_alike (alike : AlikePart left right node other)
    (functions : NameTable Signature) (name : String) (draft : StageDraft) :
    readStage left functions name draft node = readStage right functions name draft other := by
  rcases alike with alike | ⟨isBody, otherIsBody⟩
  · have rows := alike.namedChildren
    simp only [readStage, alike.kind_eq, alike.type_eq]
    generalize node.namedChildren = named, other.namedChildren = otherNamed at rows ⊢
    cases rows with
    | nil => rfl
    | cons sameMark _ => simp only [sameMark.text_eq]
  · rw [readStage, readStage, isBody, otherIsBody]
    rfl

theorem readStages_eq {name : Node} (isName : node.field "name" = .ok (some name))
    (source : List Char) (functions : NameTable Signature) (entryPoints : EntryPoints) :
    readStages source functions entryPoints node = (node.namedChildren.foldlM
      (readStage source functions (name.text source)) ⟨entryPoints, []⟩).map
        StageDraft.entryPoints := by
  rw [readStages, isName]
  rfl

/-- The stages that a function is marked for do not depend on its body. -/
theorem readStages_alike (alike : AlikeFunctions left right node other)
    (functions : NameTable Signature) (entryPoints : EntryPoints) :
    readStages left functions entryPoints node = readStages right functions entryPoints other := by
  rcases alike.exists_name with ⟨name, otherName, isName, isOtherName, sameName⟩
  have folded := foldlM_eq_of_forall₂ alike.namedChildren
    fun draft _ _ part => readStage_alike part functions (otherName.text right) draft
  rw [readStages_eq isName, readStages_eq isOtherName, sameName.text_eq, folded]

/-! ## Declarations of parsed sources -/

/-- A node is alike in two texts if these hold the same up to where its leaves end. -/
theorem alike_of_inside {source : List Char} {first second bound : Nat}
    (grammatical : node.Grammatical source) (notModule : node.kind? ≠ some .translationUnit)
    (inside : ∀ leaf ∈ node.leaves, (leaf.span source).stop ≤ bound)
    (same : ∀ span : Text.Span, span.stop ≤ bound →
      (span.shift first).slice left = (span.shift second).slice right) :
    Alike left right (node.shift first) (node.shift second) := by
  apply alike_shift
  intro part inNode
  rcases grammatical.exists_span notModule inside inNode with ⟨span, isSpan, isInside⟩
  exact ⟨span, isSpan, same span isInside⟩

section Parsed

variable {source : List Char} {tree : SyntaxTree} (accepted : SyntaxTree.parse source = .ok tree)

include accepted

theorem ofKind_of_parse : tree.root.OfKind source .translationUnit := by
  rcases grammatical_of_parse accepted with ⟨-, grammatical, isTop⟩
  exact ⟨grammatical, Node.isNamed_of_kind? (by decide) isTop, isTop⟩

/-- The declarations of a module stand in its source. So they are alike wherever the source stands
in other texts. -/
theorem alike_children {first second : Nat}
    (same : ∀ span : Text.Span, span.stop ≤ source.length →
      (span.shift first).slice left = (span.shift second).slice right) :
    ∀ node ∈ tree.root.children, Alike left right (node.shift first) (node.shift second) := by
  have isModule := ofKind_of_parse accepted
  intro node isNode
  refine alike_of_inside (isModule.child isNode) (isModule.kind?_child_ne isNode) ?_ same
  intro leaf isLeaf
  apply (tiling_of_parse accepted).inside
  rw [Node.leaves_eq_flatMap isModule.isNamed]
  exact List.mem_map_of_mem (List.mem_flatMap_of_mem isNode isLeaf)

theorem nodesOfKind_of_parse {kind : Kind} (isDeclaration : kind ∈ Node.declarations) :
    nodesOfKind tree kind = Node.among kind tree.root.children :=
  nodesOfKind_eq_parts (ofKind_of_parse accepted) isDeclaration

end Parsed

end ShaderReflection.Reflection

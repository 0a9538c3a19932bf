import ShaderReflection.Proofs.Reflection.Alike
import ShaderReflection.Proofs.Reflection.Reflect
import ShaderReflection.Proofs.Tree.Splitting

/-!
# Bodies do not matter

Sources whose declarations are alike, functions but for their bodies, are reflected alike
(`ofTree_eq_of_alike`). Sources that differ in the body of a function are such sources
(`reflect_eq_of_bodies`).
-/

namespace ShaderReflection.Reflection

open ShaderReflection.Tree ShaderReflection.Grammar

variable {left right : List Char} {node other : Node} {nodes others : List Node}

/-! ## Declarations that are alike -/

/-- Declarations that are alike, functions but for their bodies. -/
inductive AlikeDeclarations (left right : List Char) (node other : Node) : Prop
  | functions (alike : AlikeFunctions left right node other)
  | others (alike : Alike left right node other)
      (notFunction : other.kind? ≠ some .functionDeclaration)

theorem AlikeDeclarations.kind?_eq (alike : AlikeDeclarations left right node other) :
    node.kind? = other.kind? := by
  cases alike with
  | functions alike => rw [Node.kind_eq_ok.mp alike.kind, Node.kind_eq_ok.mp alike.otherKind]
  | others alike _ => exact alike.kind?_eq

section Rows

variable (rows : List.Forall₂ (AlikeDeclarations left right) nodes others)

include rows

theorem forall₂_functions : List.Forall₂ (AlikeFunctions left right)
    (Node.among .functionDeclaration nodes) (Node.among .functionDeclaration others) := by
  refine forall₂_filter rows (fun _ _ alike => by rw [alike.kind?_eq]) ?_
  intro node other alike isFunction
  cases alike with
  | functions alike => exact alike
  | others _ notFunction => exact absurd (beq_iff_eq.mp isFunction) notFunction

theorem forall₂_others {kind : Kind} (notFunction : kind ≠ .functionDeclaration) :
    List.Forall₂ (Alike left right) (Node.among kind nodes) (Node.among kind others) := by
  refine forall₂_filter rows (fun _ _ alike => by rw [alike.kind?_eq]) ?_
  intro node other alike isKind
  cases alike with
  | functions alike =>
      rw [Node.kind_eq_ok.mp alike.otherKind] at isKind
      exact absurd (Option.some.inj (beq_iff_eq.mp isKind)).symm notFunction
  | others alike _ => exact alike

end Rows

/-- Modules with alike declarations are reflected alike. -/
theorem ofTree_eq_of_alike {tree otherTree : SyntaxTree}
    (accepted : SyntaxTree.parse left = .ok tree)
    (otherAccepted : SyntaxTree.parse right = .ok otherTree)
    (rows : List.Forall₂ (AlikeDeclarations left right) tree.root.children
      otherTree.root.children) : ofTree tree = ofTree otherTree := by
  have isSource := (grammatical_of_parse accepted).1
  have otherIsSource := (grammatical_of_parse otherAccepted).1
  have functionRows : List.Forall₂ (AlikeFunctions left right)
      (nodesOfKind tree .functionDeclaration) (nodesOfKind otherTree .functionDeclaration) := by
    rw [nodesOfKind_of_parse accepted (by decide), nodesOfKind_of_parse otherAccepted (by decide)]
    exact forall₂_functions rows
  have sameStructures : structuresOf tree = structuresOf otherTree := by
    rw [structuresOf_eq, structuresOf_eq, isSource, otherIsSource,
      nodesOfKind_of_parse accepted (by decide), nodesOfKind_of_parse otherAccepted (by decide)]
    apply foldlM_eq_of_forall₂ (forall₂_others rows (by decide))
    intro table node other alike
    rw [readStructure_alike alike]
  have sameFunctions : functionsOf tree = functionsOf otherTree := by
    funext structures
    rw [functionsOf_eq, functionsOf_eq, isSource, otherIsSource]
    apply foldlM_eq_of_forall₂ functionRows
    intro table node other alike
    rw [readFunction_alike alike]
  have sameEntryPoints : entryPointsOf tree = entryPointsOf otherTree := by
    funext functions
    rw [entryPointsOf_eq, entryPointsOf_eq, isSource, otherIsSource]
    apply foldlM_eq_of_forall₂ functionRows
    intro entryPoints node other alike
    exact readStages_alike alike functions entryPoints
  have sameBindings : bindingsOf tree = bindingsOf otherTree := by
    rw [bindingsOf_eq, bindingsOf_eq, isSource, otherIsSource,
      nodesOfKind_of_parse accepted (by decide), nodesOfKind_of_parse otherAccepted (by decide)]
    apply mapM_eq_of_forall₂ (forall₂_others rows (by decide))
    intro node other alike
    exact readBinding_alike alike
  rw [ofTree, ofTree, sameStructures, sameFunctions, sameEntryPoints, sameBindings]

/-! ## Sources that differ in a body -/

theorem alikeDeclarations_of_alike (grammatical : node.Grammatical left)
    (alike : Alike left right node other) : AlikeDeclarations left right node other := by
  by_cases isFunction : node.kind? = some .functionDeclaration
  · have ofKind : node.OfKind left .functionDeclaration :=
      ⟨grammatical, Node.isNamed_of_kind? (by decide) isFunction, isFunction⟩
    exact .functions {
      kind := ofKind.kind_eq
      otherKind := alike.kind_eq ▸ ofKind.kind_eq
      hasName := ofKind.exists_field "name" rfl rfl
      parts := alike.children.imp fun _ _ => .inl }
  · exact .others alike (alike.kind?_eq ▸ isFunction)

section Around

variable {front inner other back : List Char} {before parts after : List (Phrase Token)}
  {opening : Token}

/-- Whatever comes behind it, in front of a body everything is alike. -/
theorem alike_in_front (around : AroundBody front back before parts after opening)
    (text more : List Char) {part : Phrase Token} (isPart : part ∈ before ++ parts)
    {source : List Char} (grammatical : part.toNode.Grammatical source)
    (notModule : part.toNode.kind? ≠ some .translationUnit) :
    Alike (front ++ text) (front ++ more) part.toNode part.toNode := by
  have inside : ∀ leaf ∈ part.toNode.leaves, (leaf.span source).stop ≤ front.length := by
    rw [Phrase.leaves_toNode, List.forall_mem_map]
    intro leaf isLeaf
    apply around.inside leaf
    rw [Phrase.leavesOfAll_eq_flatMap]
    exact List.mem_flatMap_of_mem isPart isLeaf
  have same : ∀ span : Text.Span, span.stop ≤ front.length →
      (span.shift 0).slice (front ++ text) = (span.shift 0).slice (front ++ more) := by
    intro span isInside
    rw [(span.shift 0).slice_append isInside, (span.shift 0).slice_append isInside]
  have alike := alike_of_inside grammatical notModule inside same
  rwa [Node.shift_zero] at alike

/-- The function that a body belongs to has the same signature with another body. -/
theorem alikeFunctions_of_body (around : AroundBody front back before parts after opening)
    (text more : List Char) {body otherBody : Phrase Token}
    (grammatical : (Phrase.function parts body).toNode.Grammatical (front ++ text))
    (isBody : body.toNode.kind = .ok .compoundStatement)
    (otherIsBody : otherBody.toNode.kind = .ok .compoundStatement) :
    AlikeFunctions (front ++ text) (front ++ more) (Phrase.function parts body).toNode
      (Phrase.function parts otherBody).toNode := by
  have ofKind : (Phrase.function parts body).toNode.OfKind (front ++ text) .functionDeclaration :=
    ⟨grammatical, rfl, rfl⟩
  have children : ∀ last, (Phrase.function parts last).toNode.children =
      parts.map Phrase.toNode ++ [last.toNode] := by
    intro last
    rw [Phrase.function, Phrase.toNode, Node.children, Phrase.toNodes_eq_map, List.map_append,
      List.map_singleton]
  refine ⟨rfl, rfl, ofKind.exists_field "name" rfl rfl, ?_⟩
  rw [children, children]
  refine List.rel_append ?_ (.cons (.inr ⟨isBody, otherIsBody⟩) .nil)
  rw [List.forall₂_map_left_iff, List.forall₂_map_right_iff, List.forall₂_same]
  intro part isPart
  have isChild : part.toNode ∈ (Phrase.function parts body).toNode.children := by
    rw [children]
    exact List.mem_append_left _ (List.mem_map_of_mem isPart)
  exact .inl (alike_in_front around text more (List.mem_append_right _ isPart)
    (ofKind.child isChild) (ofKind.kind?_child_ne isChild))

/-- Sources that differ in a body have alike declarations. -/
theorem alikeDeclarations_of_bodies {tree otherTree : SyntaxTree}
    (accepted : SyntaxTree.parse (withBraces front inner back) = .ok tree)
    (otherAccepted : SyntaxTree.parse (withBraces front other back) = .ok otherTree)
    (isBody : tree.IsBody ⟨front.length, front.length + inner.length + 2⟩)
    (otherIsBody : otherTree.IsBody ⟨front.length, front.length + other.length + 2⟩) :
    List.Forall₂ (AlikeDeclarations (withBraces front inner back) (withBraces front other back))
      tree.root.children otherTree.root.children := by
  rcases exists_aroundBody accepted isBody with
    ⟨before, parts, after, opening, between, closing, around, areChildren⟩
  rcases exists_aroundBody otherAccepted otherIsBody with
    ⟨_, _, _, otherOpening, otherBetween, otherClosing, otherAround, areOthers⟩
  rcases around.unique otherAround with ⟨rfl, rfl, rfl⟩
  have isModule := ofKind_of_parse accepted
  have grammatical : ∀ node ∈ tree.root.children,
      node.Grammatical (withBraces front inner back) := fun _ => isModule.child
  have notModule : ∀ node ∈ tree.root.children, node.kind? ≠ some .translationUnit :=
    fun _ => isModule.kind?_child_ne
  rw [areOthers]
  rw [areChildren] at grammatical notModule ⊢
  rcases List.forall_mem_append.mp grammatical with ⟨inFront, further⟩
  rcases List.forall_mem_cons.mp further with ⟨inFunction, behind⟩
  refine List.rel_append ?_ (.cons ?_ ?_)
  · rw [List.forall₂_map_left_iff, List.forall₂_map_right_iff, List.forall₂_same]
    intro item isItem
    have isNode := List.mem_map_of_mem (f := Phrase.toNode) isItem
    refine alikeDeclarations_of_alike (inFront _ isNode) ?_
    exact alike_in_front around _ _ (List.mem_append_left _ isItem) (inFront _ isNode)
      (notModule _ (List.mem_append_left _ isNode))
  · exact .functions (alikeFunctions_of_body around _ _ inFunction rfl rfl)
  · have backAccepted := parse_eq_ok_iff.mpr ⟨_, around.afterIsModule, rfl, around.behind⟩
    rw [← Phrase.children_toNode_module] at behind ⊢
    rw [List.forall₂_map_left_iff, List.forall₂_map_right_iff, List.forall₂_same]
    intro node isNode
    refine alikeDeclarations_of_alike (behind _ (List.mem_map_of_mem isNode)) ?_
    refine alike_children backAccepted (fun span _ => ?_) node isNode
    rw [slice_withBraces, slice_withBraces]

end Around

/-- Reflection does not depend on the bodies of functions: sources that differ between the braces of
a body are reflected to the same model, or with the same fault. -/
theorem reflect_eq_of_bodies {front inner other back : String} {tree otherTree : SyntaxTree}
    (accepted : parse (front ++ "\x7b" ++ inner ++ "\x7d" ++ back) = .ok tree)
    (otherAccepted : parse (front ++ "\x7b" ++ other ++ "\x7d" ++ back) = .ok otherTree)
    (isBody : tree.IsBody ⟨front.length, front.length + inner.length + 2⟩)
    (otherIsBody : otherTree.IsBody ⟨front.length, front.length + other.length + 2⟩) :
    reflect (front ++ "\x7b" ++ inner ++ "\x7d" ++ back) =
      reflect (front ++ "\x7b" ++ other ++ "\x7d" ++ back) := by
  have chars : ∀ between : String, (front ++ "\x7b" ++ between ++ "\x7d" ++ back).toList =
      withBraces front.toList between.toList back.toList := by
    intro between
    simp [withBraces]
  have isParsed := parse_eq_ok accepted
  have otherIsParsed := parse_eq_ok otherAccepted
  rw [chars] at isParsed otherIsParsed
  rw [reflect, reflect, accepted, otherAccepted]
  exact ofTree_eq_of_alike isParsed otherIsParsed
    (alikeDeclarations_of_bodies isParsed otherIsParsed isBody otherIsBody)

/-- A source up to the opening brace of a body. -/
def openedSource : String := "@compute fn f() "

def plainBody : String := " return; "

/-- A body with braces in comments and a block. -/
def nestedBody : String := " /* \x7d */ if a \x7b b \x7d // \x7d\n"

/-- The rest of the source. -/
def closedSource : String := "@group(0) @binding(1) var<uniform> u: array<f32>;"

theorem reflect_eq_of_bodies_nestedBody :
    ∃ tree otherTree,
      parse (openedSource ++ "\x7b" ++ plainBody ++ "\x7d" ++ closedSource) = .ok tree ∧
      parse (openedSource ++ "\x7b" ++ nestedBody ++ "\x7d" ++ closedSource) = .ok otherTree ∧
      reflect (openedSource ++ "\x7b" ++ plainBody ++ "\x7d" ++ closedSource) =
        reflect (openedSource ++ "\x7b" ++ nestedBody ++ "\x7d" ++ closedSource) := by
  have checked :
      (parse (openedSource ++ "\x7b" ++ plainBody ++ "\x7d" ++ closedSource)).toOption.any
        (fun tree => decide (tree.IsBody ⟨openedSource.length,
          openedSource.length + plainBody.length + 2⟩)) = true ∧
      (parse (openedSource ++ "\x7b" ++ nestedBody ++ "\x7d" ++ closedSource)).toOption.any
        (fun tree => decide (tree.IsBody ⟨openedSource.length,
          openedSource.length + nestedBody.length + 2⟩)) = true := by
    decide +kernel
  rcases exists_ok_of_any checked.1 with ⟨tree, accepted, isBody⟩
  rcases exists_ok_of_any checked.2 with ⟨otherTree, otherAccepted, otherIsBody⟩
  exact ⟨tree, otherTree, accepted, otherAccepted, reflect_eq_of_bodies accepted otherAccepted
    (of_decide_eq_true isBody) (of_decide_eq_true otherIsBody)⟩

end ShaderReflection.Reflection

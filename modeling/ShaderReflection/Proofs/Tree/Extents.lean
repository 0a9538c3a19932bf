import ShaderReflection.Proofs.Tree.Sites

/-!
# How far nodes reach

The leaves of a parsed tree stand in the source one behind the other, and every node reaches from
its first leaf to its last one. So the children of a node lie inside it, each behind the one before.
Offsets count characters; the bytes of a node are the bytes of its text.
-/

namespace ShaderReflection.Text

/-! ## Bytes of a slice -/

theorem size_utf8Encode (text : List Char) : text.utf8Encode.size = byteLength text := by
  induction text with
  | nil => rfl
  | cons char text induction =>
      rw [List.utf8Encode_cons, ByteArray.size_append, induction, byteLength,
        List.utf8Encode_singleton, List.size_toByteArray, String.length_utf8EncodeChar]

/-- The bytes between the byte offsets of a span are the bytes of its slice. -/
theorem extract_utf8Encode (text : List Char) (span : Span) (inOrder : span.start ≤ span.stop) :
    text.utf8Encode.extract (byteOffset text span.start) (byteOffset text span.stop) =
      (span.slice text).utf8Encode := by
  have toStop : text.take span.stop = text.take span.start ++ span.slice text := by
    rw [Span.slice, ← List.take_add, Nat.add_sub_cancel' inOrder]
  have isText : text.utf8Encode = (text.take span.start).utf8Encode ++
      ((span.slice text).utf8Encode ++ (text.drop span.stop).utf8Encode) := by
    rw [← List.utf8Encode_append, ← List.utf8Encode_append, Span.slice_append_drop text inOrder,
      List.take_append_drop]
  have atStart : byteOffset text span.start = (text.take span.start).utf8Encode.size + 0 := by
    rw [byteOffset_eq, size_utf8Encode, Nat.add_zero]
  have atStop : byteOffset text span.stop =
      (text.take span.start).utf8Encode.size + (span.slice text).utf8Encode.size := by
    rw [byteOffset_eq, toStop, byteLength_append, size_utf8Encode, size_utf8Encode]
  rw [atStart, atStop, isText, ByteArray.extract_append_size_add,
    ByteArray.extract_append_eq_left rfl]

end ShaderReflection.Text

namespace ShaderReflection.Tree.Node

open ShaderReflection.Text ShaderReflection.Wgsl

variable {source : List Char} {node : Node}

/-- Where a node ends. -/
def stop (source : List Char) (node : Node) : Nat := (node.span source).stop

/-! ## Rows of nodes -/

/-- The nodes of a row take up characters and stand one behind the other. -/
structure InOrder (source : List Char) (row : List Node) : Prop where
  full : ∀ node ∈ row, node.start source < node.stop source
  apart : row.Pairwise fun left right => left.stop source ≤ right.start source

namespace InOrder

variable {row : List Node}

theorem sublist {part : List Node} (inOrder : InOrder source row) (isPart : part.Sublist row) :
    InOrder source part :=
  ⟨fun node isNode => inOrder.full node (isPart.subset isNode), inOrder.apart.sublist isPart⟩

theorem first_start_le (inOrder : InOrder source row) {first : Node}
    (isFirst : row.head? = some first) :
    ∀ other ∈ row, first.start source ≤ other.start source := by
  rcases List.head?_eq_some_iff.mp isFirst with ⟨rest, rfl⟩
  rw [List.forall_mem_cons]
  refine ⟨Nat.le_refl _, ?_⟩
  intro other isOther
  have isBehind := List.rel_of_pairwise_cons inOrder.apart isOther
  have isFull := inOrder.full first List.mem_cons_self
  omega

theorem stop_le_last (inOrder : InOrder source row) {last : Node}
    (isLast : row.getLast? = some last) :
    ∀ other ∈ row, other.stop source ≤ last.stop source := by
  rcases List.getLast?_eq_some_iff.mp isLast with ⟨front, rfl⟩
  rw [List.forall_mem_append, List.forall_mem_singleton]
  refine ⟨?_, Nat.le_refl _⟩
  intro other isOther
  have isBefore := (List.pairwise_append.mp inOrder.apart).2.2 other isOther last
    (List.mem_singleton_self last)
  have isFull := inOrder.full last (List.mem_append_right _ (List.mem_singleton_self last))
  omega

end InOrder

/-! ## Nodes and their leaves -/

/-- A node reaches from the start of its first leaf to the end of its last one, which is behind
it. -/
def SpansLeaves (source : List Char) (node : Node) : Prop :=
  ∃ first last, node.leaves.head? = some first ∧ node.leaves.getLast? = some last ∧
    node.start source = first.start source ∧ node.stop source = last.stop source ∧
    node.start source < node.stop source

/-- The children of a node lie inside it, each behind the one before. -/
structure HoldsChildren (source : List Char) (node : Node) : Prop where
  inside : ∀ child ∈ node.children,
    node.start source ≤ child.start source ∧ child.stop source ≤ node.stop source
  inOrder : node.children.Pairwise fun left right => left.stop source ≤ right.start source

theorem Grammatical.spansLeaves (grammatical : node.Grammatical source)
    (inOrder : InOrder source node.leaves) (isFull : node.leaves ≠ []) :
    node.SpansLeaves source := by
  rcases exists_ends isFull with
    ⟨first, last, left, right, isFirst, isLast, isLeft, isRight, isCover⟩
  have isSpan : node.span source = ⟨left.start, right.stop⟩ := by
    rw [span, grammatical.span?_eq, isCover, Option.getD_some]
  have sameStart : node.start source = first.start source := by
    rw [start, start, isSpan, span, isLeft, Option.getD_some]
  have sameStop : node.stop source = last.stop source := by
    rw [stop, stop, isSpan, span, isRight, Option.getD_some]
  refine ⟨first, last, isFirst, isLast, sameStart, sameStop, ?_⟩
  have lastFull := inOrder.full last (List.mem_of_getLast? isLast)
  have firstBefore := inOrder.first_start_le isFirst last (List.mem_of_getLast? isLast)
  omega

theorem Grammatical.holdsChildren (grammatical : node.Grammatical source)
    (inOrder : InOrder source node.leaves) : node.HoldsChildren source := by
  have inTree : ∀ child ∈ node.children, child ∈ node.walk := fun child isChild =>
    mem_walk_of_child isChild (mem_walk_self child)
  have inRow : ∀ child ∈ node.children, child.leaves.Sublist node.leaves := fun child isChild =>
    grammatical.leaves_sublist (inTree child isChild)
  -- What a child spans is told by its leaves, which are among those of the node.
  have spans : ∀ child ∈ node.children, child.SpansLeaves source := by
    intro child isChild
    have isNode := grammatical.of_mem_walk (inTree child isChild)
    exact isNode.spansLeaves (inOrder.sublist (inRow child isChild))
      (isNode.leaves_ne_nil (grammatical.kind?_child_ne isChild))
  refine ⟨?inside, ?inOrder⟩
  case inside =>
    intro child isChild
    rcases spans child isChild with ⟨first, last, isFirst, isLast, sameStart, sameStop, -⟩
    have firstLeaf := (inRow child isChild).subset (List.mem_of_head? isFirst)
    have lastLeaf := (inRow child isChild).subset (List.mem_of_getLast? isLast)
    rcases grammatical.spansLeaves inOrder (List.ne_nil_of_mem firstLeaf) with
      ⟨front, back, isFront, isBack, nodeStart, nodeStop, -⟩
    rw [nodeStart, nodeStop, sameStart, sameStop]
    exact ⟨inOrder.first_start_le isFront first firstLeaf,
      inOrder.stop_le_last isBack last lastLeaf⟩
  case inOrder =>
    cases isNamed : node.isNamed with
    | false =>
        cases node with
        | named label span children => cases isNamed
        | token label span => exact .nil
    | true =>
        have apart := inOrder.apart
        rw [leaves_eq_flatMap isNamed, List.pairwise_flatMap] at apart
        refine apart.2.imp_of_mem ?_
        intro left right isLeft isRight apartLeaves
        rcases spans left isLeft with ⟨_, last, _, isLast, _, sameStop, _⟩
        rcases spans right isRight with ⟨first, _, isFirst, _, sameStart, _, _⟩
        rw [sameStop, sameStart]
        exact apartLeaves last (List.mem_of_getLast? isLast) first (List.mem_of_head? isFirst)

/-! ## Parsed trees -/

theorem inOrder_of_parse {tree : SyntaxTree} (accepted : SyntaxTree.parse source = .ok tree) :
    InOrder source tree.root.leaves := by
  have tiling := tiling_of_parse accepted
  exact ⟨fun leaf isLeaf => tiling.full _ (List.mem_map_of_mem isLeaf),
    List.pairwise_map.mp tiling.ascending⟩

theorem mem_walk_of_at? {way : List Nat} {root : Node} (isNode : root.at? way = some node) :
    node ∈ root.walk := by
  rw [← map_snd_sites]
  exact List.mem_map_of_mem ((mem_sites root way node).mpr isNode)

/-- Only the root of a tree can be without leaves. -/
theorem Grammatical.way_eq_nil {root : Node} (grammatical : root.Grammatical source)
    {way : List Nat} (isNode : root.at? way = some node) (isEmpty : node.leaves = []) :
    way = [] := by
  cases way with
  | nil => rfl
  | cons index way =>
      exfalso
      rcases Option.bind_eq_some_iff.mp isNode with ⟨child, atIndex, isBelow⟩
      have isChild := List.mem_of_getElem? atIndex
      have inChild := mem_walk_of_at? isBelow
      have isChildOf := grammatical.of_mem_walk (mem_walk_of_child isChild (mem_walk_self child))
      have notModule := isChildOf.notModule_of_mem_walk (grammatical.kind?_child_ne isChild) inChild
      exact (isChildOf.of_mem_walk inChild).leaves_ne_nil notModule isEmpty

/-- Without leaves there is nothing but trivia in a source. -/
theorem skipped_of_leaves_eq_nil {tree : SyntaxTree}
    (accepted : SyntaxTree.parse source = .ok tree) (isEmpty : tree.root.leaves = []) :
    Skipped source [] := by
  have tiling := tiling_of_parse accepted
  rw [isEmpty, List.map_nil] at tiling
  have skipped := tiling.trivia _ List.mem_cons_self
  rwa [Span.slice, List.drop_zero, Nat.sub_zero, List.take_length, List.drop_length] at skipped

/-- The spans of an accepted source fit together. A node without leaves is the root of a source with
nothing but trivia, and stands for the whole source; every other one reaches from its first leaf to
its last one. The children of a node lie inside it, each behind the one before. The bytes between
the byte offsets of a node are those of its text. -/
theorem spans_of_parse {tree : SyntaxTree} (accepted : SyntaxTree.parse source = .ok tree) :
    ∀ way node, tree.root.at? way = some node →
      (way = [] ∧ node.leaves = [] ∧ Skipped source [] ∧ node.span source = Span.whole source ∨
        node.SpansLeaves source) ∧
      node.HoldsChildren source ∧
      (String.ofList source).toByteArray.extract (node.startByte source) (node.stopByte source) =
        (node.text source).toByteArray := by
  intro way node isNode
  have grammatical := (grammatical_of_parse accepted).2.1
  have inTree := mem_walk_of_at? isNode
  have isNodeOf := grammatical.of_mem_walk inTree
  have inOrder := (inOrder_of_parse accepted).sublist (grammatical.leaves_sublist inTree)
  have reach : way = [] ∧ node.leaves = [] ∧ Skipped source [] ∧
      node.span source = Span.whole source ∨ node.SpansLeaves source := by
    by_cases isEmpty : node.leaves = []
    · have isRoot := grammatical.way_eq_nil isNode isEmpty
      subst isRoot
      cases isNode
      refine .inl ⟨rfl, isEmpty, skipped_of_leaves_eq_nil accepted isEmpty, ?_⟩
      rw [span, isNodeOf.span?_eq, isEmpty]
      rfl
    · exact .inr (isNodeOf.spansLeaves inOrder isEmpty)
  have forward : (node.span source).start ≤ (node.span source).stop := by
    rcases reach with ⟨-, -, -, isWhole⟩ | ⟨_, _, _, _, _, _, isFull⟩
    · rw [isWhole]
      exact Nat.zero_le _
    · exact Nat.le_of_lt isFull
  refine ⟨reach, isNodeOf.holdsChildren inOrder, ?_⟩
  rw [String.toByteArray_ofList, text, String.toByteArray_ofList, startByte, stopByte, chars]
  exact extract_utf8Encode source _ forward

/-- A string with a character of two bytes, behind a comment with one of four. -/
def accentedSource : List Char := "/* 😀 */ const x = \"é\" ;".toList

/-- The string and the declaration around it. -/
theorem spans_of_parse_accentedSource :
    ∃ tree declaration literal, SyntaxTree.parse accentedSource = .ok tree ∧
      tree.root.at? [0] = some declaration ∧ declaration.SpansLeaves accentedSource ∧
      declaration.HoldsChildren accentedSource ∧
      tree.root.at? [0, 3] = some literal ∧ literal.SpansLeaves accentedSource ∧
      literal.startByte accentedSource = 21 ∧ literal.stopByte accentedSource = 25 ∧
      (String.ofList accentedSource).toByteArray.extract 21 25 = "\"é\"".toByteArray := by
  have checked : (SyntaxTree.parse accentedSource).toOption.any (fun tree =>
      (tree.root.at? [0]).isSome && (tree.root.at? [0, 3]).any fun literal =>
        literal.startByte accentedSource == 21 && literal.stopByte accentedSource == 25 &&
          literal.text accentedSource == "\"é\"") = true := by
    decide +kernel
  rcases exists_ok_of_any checked with ⟨tree, accepted, found⟩
  rw [Bool.and_eq_true, Option.any_eq_true] at found
  rcases found with ⟨isSome, literal, isLiteral, isFound⟩
  rcases Option.isSome_iff_exists.mp isSome with ⟨declaration, isDeclaration⟩
  simp only [Bool.and_eq_true, beq_iff_eq] at isFound
  rcases isFound with ⟨⟨isStart, isStop⟩, isText⟩
  have ofDeclaration := spans_of_parse accepted _ _ isDeclaration
  have ofLiteral := spans_of_parse accepted _ _ isLiteral
  have notRoot {way : List Nat} {node : Node} {claim : Prop} (isBelow : way ≠ [])
      (either : way = [] ∧ claim ∨ node.SpansLeaves accentedSource) :
      node.SpansLeaves accentedSource :=
    either.resolve_left fun isRoot => isBelow isRoot.1
  have bytes := ofLiteral.2.2
  rw [isStart, isStop, isText] at bytes
  exact ⟨tree, declaration, literal, accepted, isDeclaration,
    notRoot (List.cons_ne_nil _ _) ofDeclaration.1, ofDeclaration.2.1, isLiteral,
    notRoot (List.cons_ne_nil _ _) ofLiteral.1, isStart, isStop, bytes⟩

end ShaderReflection.Tree.Node

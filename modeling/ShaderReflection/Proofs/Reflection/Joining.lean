import ShaderReflection.Proofs.Reflection.Alike
import ShaderReflection.Proofs.Reflection.Passes
import ShaderReflection.Proofs.Tree.Joining

/-!
# Reflecting sources one behind the other

What two sources declare is declared by the two with a line feed between them, first what the first
declares and then what the second does. So the structures of the second are put into the table of
the first, and the bindings of the second come behind those of the first.
-/

namespace ShaderReflection.Reflection

open ShaderReflection.Tree

variable {left right joined : SyntaxTree} {kind : Kind}

/-! ## Declarations of joined sources -/

theorem among_append (kind : Kind) (nodes others : List Node) :
    Node.among kind (nodes ++ others) = Node.among kind nodes ++ Node.among kind others := by
  rw [Node.among, List.filter_append, ← Node.among, ← Node.among]

theorem among_shift (kind : Kind) (count : Nat) (nodes : List Node) :
    Node.among kind (nodes.map (Node.shift count)) =
      (Node.among kind nodes).map (Node.shift count) := by
  rw [Node.among, Node.among, List.filter_map]
  congr 1
  apply List.filter_congr
  intro node _
  rw [Function.comp_apply, Node.kind?_shift]

/-- What the declarations of joined sources say is what those of the first say, and then what those
of the second do. -/
theorem mapM_join {β : Type} {read : List Char → Node → Attempt β} {first second : List Char}
    (alike : ∀ {left right : List Char} {node other : Node}, Alike left right node other →
      read left node = read right other)
    (leftAccepted : SyntaxTree.parse first = .ok left)
    (rightAccepted : SyntaxTree.parse second = .ok right)
    (joinedAccepted : SyntaxTree.parse (first ++ '\n' :: second) = .ok joined)
    (isJoined : joined.root.children =
      left.root.children ++ right.root.children.map (Node.shift (first.length + 1)))
    (isDeclaration : kind ∈ Node.declarations) :
    (nodesOfKind joined kind).mapM (read (first ++ '\n' :: second)) = do
      let values ← (nodesOfKind left kind).mapM (read first)
      let more ← (nodesOfKind right kind).mapM (read second)
      return values ++ more := by
  rw [nodesOfKind_of_parse leftAccepted isDeclaration,
    nodesOfKind_of_parse rightAccepted isDeclaration,
    nodesOfKind_of_parse joinedAccepted isDeclaration, isJoined, among_append, among_shift,
    List.mapM_append]
  have inFirst : List.Forall₂ (Alike first (first ++ '\n' :: second))
      (Node.among kind left.root.children) (Node.among kind left.root.children) := by
    rw [List.forall₂_same]
    intro node isNode
    have same := alike_children leftAccepted
      (fun span inside => (Text.Span.slice_append (span.shift 0) inside ('\n' :: second)).symm)
      node (List.mem_filter.mp isNode).1
    rwa [Node.shift_zero] at same
  have inSecond : List.Forall₂ (Alike second (first ++ '\n' :: second))
      (Node.among kind right.root.children)
      ((Node.among kind right.root.children).map (Node.shift (first.length + 1))) := by
    rw [List.forall₂_map_right_iff, List.forall₂_same]
    intro node isNode
    have shifted : ∀ span : Text.Span, (span.shift 0).slice second =
        (span.shift (first.length + 1)).slice (first ++ '\n' :: second) := by
      intro span
      have moved := span.slice_shift (first ++ ['\n']) second
      rw [List.length_append, List.length_singleton, List.append_assoc] at moved
      exact moved.symm
    have same := alike_children rightAccepted (fun span _ => shifted span)
      node (List.mem_filter.mp isNode).1
    rwa [Node.shift_zero] at same
  rw [mapM_eq_of_forall₂ inFirst fun _ _ => alike, mapM_eq_of_forall₂ inSecond fun _ _ => alike]

/-! ## Tables of structures -/

/-- A pass reads all its nodes, and then puts what they say into a table. -/
theorem foldlM_put_eq {α : Type} (read : Node → Attempt α) (name : α → String)
    (nodes : List Node) (table : NameTable α) :
    (nodes.foldlM (fun table node => do
      let found ← read node
      return table.put (name found) found) table) =
      (nodes.mapM read).map fun values =>
        table.putAll (values.map fun value => (name value, value)) := by
  induction nodes generalizing table with
  | nil => rfl
  | cons node nodes induction =>
      rw [List.foldlM_cons, List.mapM_cons]
      cases read node with
      | error fault => rfl
      | ok found =>
          refine (induction (table.put (name found) found)).trans ?_
          cases nodes.mapM read <;> rfl

/-- The structures of a parsed module, and the list that their table is made from. -/
theorem exists_structures {source : List Char} {tree : SyntaxTree}
    (accepted : SyntaxTree.parse source = .ok tree) :
    ∃ values, (nodesOfKind tree .structDeclaration).mapM (readStructure source) = .ok values ∧
      structuresOf tree = .ok (NameTable.ofList (values.map fun value => (value.name, value))) := by
  rcases grammatical_of_parse accepted with ⟨isSource, grammatical, -⟩
  rw [← isSource] at grammatical ⊢
  rcases (structuresOf_describes grammatical).exists_ok with ⟨structures, isStructures, -⟩
  rw [structuresOf_eq, foldlM_put_eq] at isStructures ⊢
  cases result : (nodesOfKind tree .structDeclaration).mapM (readStructure tree.source) with
  | error fault =>
      rw [result] at isStructures
      cases isStructures
  | ok values => exact ⟨values, rfl, rfl⟩

/-- Two accepted sources with a line feed between them are an accepted source. Its declarations are
those of the first and those of the second, shifted behind the first. Its structures are those of
the first updated with those of the second, and its bindings are those of both in order. -/
theorem parse_join {first second : List Char} (leftAccepted : SyntaxTree.parse first = .ok left)
    (rightAccepted : SyntaxTree.parse second = .ok right) (noMark : left.NoLeafAtMark) :
    ∃ joined, SyntaxTree.parse (first ++ '\n' :: second) = .ok joined ∧
      joined.root.children =
        left.root.children ++ right.root.children.map (Node.shift (first.length + 1)) ∧
      (∃ structures more, structuresOf left = .ok structures ∧ structuresOf right = .ok more ∧
        structuresOf joined = .ok (structures.putAll more.entries)) ∧
      ∀ bindings more, bindingsOf left = .ok bindings → bindingsOf right = .ok more →
        bindingsOf joined = .ok (bindings ++ more) := by
  rcases exists_join leftAccepted rightAccepted noMark with ⟨joined, joinedAccepted, isJoined⟩
  refine ⟨joined, joinedAccepted, isJoined, ?structures, ?bindings⟩
  case structures =>
    have isDeclaration : Kind.structDeclaration ∈ Node.declarations := by decide
    have both := mapM_join readStructure_alike leftAccepted rightAccepted joinedAccepted isJoined
      isDeclaration
    rcases exists_structures leftAccepted with ⟨values, areValues, isLeft⟩
    rcases exists_structures rightAccepted with ⟨more, areMore, isRight⟩
    rcases exists_structures joinedAccepted with ⟨all, areAll, isBoth⟩
    rw [areValues, areMore, areAll] at both
    cases both
    refine ⟨_, _, isLeft, isRight, isBoth.trans ?_⟩
    rw [NameTable.putAll_ofList, List.map_append, NameTable.ofList, NameTable.putAll,
      List.foldl_append]
    rfl
  case bindings =>
    intro bindings more isBindings isMore
    have isDeclaration : Kind.globalVariableDeclaration ∈ Node.declarations := by decide
    have both := mapM_join readBinding_alike leftAccepted rightAccepted joinedAccepted isJoined
      isDeclaration
    rw [bindingsOf_eq, (grammatical_of_parse leftAccepted).1] at isBindings
    rw [bindingsOf_eq, (grammatical_of_parse rightAccepted).1] at isMore
    rw [bindingsOf_eq, (grammatical_of_parse joinedAccepted).1, both, isBindings, isMore]
    rfl

/-- A structure, with a comment that is open at the end. -/
def openSource : List Char := "struct S \x7b a: f32 \x7d // ".toList

/-- The same structure declared anew, and a variable. -/
def updateSource : List Char :=
  " struct S \x7b b: i32 \x7d @group(0) @binding(1) var<uniform> u: array<S>;".toList

theorem parse_join_updateSource :
    ∃ left right joined bindings more, SyntaxTree.parse openSource = .ok left ∧
      SyntaxTree.parse updateSource = .ok right ∧ left.NoLeafAtMark ∧
      SyntaxTree.parse (openSource ++ '\n' :: updateSource) = .ok joined ∧
      joined.root.children =
        left.root.children ++ right.root.children.map (Node.shift (openSource.length + 1)) ∧
      bindingsOf left = .ok bindings ∧ bindingsOf right = .ok more ∧
      bindingsOf joined = .ok (bindings ++ more) := by
  have checked : (SyntaxTree.parse openSource).toOption.any (fun tree =>
        decide tree.NoLeafAtMark && (bindingsOf tree).toOption.any fun _ => true) = true ∧
      (SyntaxTree.parse updateSource).toOption.any (fun tree =>
        (bindingsOf tree).toOption.any fun _ => true) = true := by
    decide +kernel
  rcases exists_ok_of_any checked.1 with ⟨left, leftAccepted, leftChecked⟩
  rcases exists_ok_of_any checked.2 with ⟨right, rightAccepted, rightChecked⟩
  rcases Bool.and_eq_true_iff.mp leftChecked with ⟨isClear, hasBindings⟩
  rcases exists_ok_of_any hasBindings with ⟨bindings, isBindings, -⟩
  rcases exists_ok_of_any rightChecked with ⟨more, isMore, -⟩
  have noMark := of_decide_eq_true isClear
  rcases parse_join leftAccepted rightAccepted noMark with ⟨joined, accepted, isJoined, -, both⟩
  exact ⟨left, right, joined, bindings, more, leftAccepted, rightAccepted, noMark, accepted,
    isJoined, isBindings, isMore, both bindings more isBindings isMore⟩

end ShaderReflection.Reflection

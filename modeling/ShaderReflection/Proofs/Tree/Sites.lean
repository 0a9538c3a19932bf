import Mathlib.Data.List.Lex
import ShaderReflection.Proofs.Tree.Spans

/-!
# Places in a tree

A place in a tree is told by the way to it from the root, as the numbers of the children to take.
A walk visits each place once, in the lexicographic order of the ways: a node before all nodes below
it, and what is below a child before what is below the next child. In a parsed tree the nodes of a
walk start later and later.
-/

namespace ShaderReflection.Tree.Node

/-- The node that a way leads to. -/
def at? (node : Node) : List Nat → Option Node
  | [] => some node
  | index :: way => node.children[index]?.bind fun child => child.at? way

/-- A way is prolonged by one child. -/
theorem at?_child {root node child : Node} {way : List Nat} {index : Nat}
    (isNode : root.at? way = some node) (isChild : node.children[index]? = some child) :
    root.at? (way ++ [index]) = some child := by
  induction way generalizing root with
  | nil =>
      cases isNode
      rw [List.nil_append, at?, isChild, Option.bind_some, at?]
  | cons first way induction =>
      rcases Option.bind_eq_some_iff.mp isNode with ⟨next, isNext, isBelow⟩
      rw [List.cons_append, at?, isNext, Option.bind_some]
      exact induction isBelow

mutual

/-- A node and all nodes below it with the ways to them, in the order of a walk. -/
def sites : Node → List (List Nat × Node)
  | named label span children => ([], named label span children) :: sitesAll 0 children
  | token label span => [([], token label span)]

/-- The places in a row of nodes, the first of which has the given number. -/
def sitesAll (index : Nat) : List Node → List (List Nat × Node)
  | [] => []
  | node :: rest =>
      (node.sites.map fun site => (index :: site.1, site.2)) ++ sitesAll (index + 1) rest

end

/-! ## The walk visits each place once -/

mutual

theorem map_snd_sites : (node : Node) → node.sites.map Prod.snd = node.walk
  | named label span children => by
      rw [sites, List.map_cons, map_snd_sitesAll 0 children, walk_named]
  | token label span => rfl

theorem map_snd_sitesAll (index : Nat) : (nodes : List Node) →
    (sitesAll index nodes).map Prod.snd = nodes.flatMap walk
  | [] => rfl
  | node :: rest => by
      have below : ((node.sites.map fun site => (index :: site.1, site.2)).map Prod.snd) =
          node.walk := by
        rw [← map_snd_sites node, List.map_map]
        rfl
      rw [sitesAll, List.map_append, below, map_snd_sitesAll (index + 1) rest, List.flatMap_cons]

end

mutual

theorem mem_sites : (node : Node) → (way : List Nat) → (found : Node) →
    ((way, found) ∈ node.sites ↔ node.at? way = some found)
  | named label span children, way, found => by
      rw [sites, List.mem_cons, mem_sitesAll 0 children way found]
      cases way with
      | nil => simp [at?, eq_comm]
      | cons index way => simp [at?, Node.children]
  | token label span, way, found => by
      rw [sites, List.mem_singleton]
      cases way with
      | nil => simp [at?, eq_comm]
      | cons index way => simp [at?, Node.children]

theorem mem_sitesAll (index : Nat) : (nodes : List Node) → (way : List Nat) → (found : Node) →
    ((way, found) ∈ sitesAll index nodes ↔ ∃ place rest, way = (index + place) :: rest ∧
      (nodes[place]?.bind fun node => node.at? rest) = some found)
  | [], way, found => by simp [sitesAll]
  | node :: nodes, way, found => by
      have first : (way, found) ∈ node.sites.map (fun site => (index :: site.1, site.2)) ↔
          ∃ rest, way = index :: rest ∧ node.at? rest = some found := by
        simp only [← mem_sites node]
        constructor
        · intro isSite
          rcases List.mem_map.mp isSite with ⟨⟨rest, other⟩, isOther, same⟩
          cases same
          exact ⟨rest, rfl, isOther⟩
        · rintro ⟨rest, rfl, isSite⟩
          exact List.mem_map.mpr ⟨(rest, found), isSite, rfl⟩
      rw [sitesAll, List.mem_append, first, mem_sitesAll (index + 1) nodes way found]
      constructor
      · rintro (⟨rest, rfl, isSite⟩ | ⟨place, rest, rfl, isSite⟩)
        · exact ⟨0, rest, rfl, isSite⟩
        · exact ⟨place + 1, rest, by rw [Nat.add_right_comm, Nat.add_assoc], isSite⟩
      · rintro ⟨_ | place, rest, rfl, isSite⟩
        · exact .inl ⟨rest, rfl, isSite⟩
        · exact .inr ⟨place, rest, by rw [Nat.add_right_comm, Nat.add_assoc], isSite⟩

end

/-- The order of a walk. -/
def Earlier (left right : List Nat) : Prop := List.Lex (· < ·) left right

mutual

theorem pairwise_sites : (node : Node) →
    node.sites.Pairwise fun left right => Earlier left.1 right.1
  | named label span children => by
      refine .cons ?_ (pairwise_sitesAll 0 children)
      rintro ⟨way, found⟩ isSite
      rcases (mem_sitesAll 0 children way found).mp isSite with ⟨place, rest, rfl, -⟩
      exact .nil
  | token label span => List.pairwise_singleton _ _

theorem pairwise_sitesAll (index : Nat) : (nodes : List Node) →
    (sitesAll index nodes).Pairwise fun left right => Earlier left.1 right.1
  | [] => .nil
  | node :: nodes => by
      rw [sitesAll, List.pairwise_append]
      refine ⟨?_, pairwise_sitesAll (index + 1) nodes, ?_⟩
      · rw [List.pairwise_map]
        exact (pairwise_sites node).imp fun earlier => .cons earlier
      · rintro left isLeft ⟨way, found⟩ isRight
        rcases List.mem_map.mp isLeft with ⟨site, -, rfl⟩
        rcases (mem_sitesAll (index + 1) nodes way found).mp isRight with ⟨place, rest, rfl, -⟩
        exact .rel (by omega)

end

/-! ## Starts -/

variable {source : List Char} {node : Node}

/-- Where a node starts. -/
def start (source : List Char) (node : Node) : Nat := (node.span source).start

/-- A node starts with its first leaf. -/
theorem Grammatical.exists_start (grammatical : node.Grammatical source)
    (isFull : node.leaves ≠ []) :
    ∃ first, node.leaves.head? = some first ∧ node.start source = first.start source := by
  rcases exists_ends isFull with ⟨first, _, left, right, isFirst, _, isLeft, _, isCover⟩
  refine ⟨first, isFirst, ?_⟩
  rw [start, start, span, span, grammatical.span?_eq, isCover, isLeft]
  rfl

theorem Grammatical.pairwise_start (grammatical : node.Grammatical source)
    (ascending : node.leaves.Pairwise fun left right => left.start source ≤ right.start source) :
    node.walk.Pairwise fun left right => left.start source ≤ right.start source := by
  induction grammatical with
  | token terminal span isText => exact List.pairwise_singleton _ _
  | named kind children row isRow symbols below induction =>
      have whole := Grammatical.named kind children row isRow symbols below
      -- Whatever is below a child starts with a leaf of that child.
      have inside : ∀ child ∈ children, ∀ other ∈ child.walk,
          ∃ first ∈ child.leaves, other.start source = first.start source := by
        intro child isChild other isOther
        have isNode := (below child isChild).of_mem_walk isOther
        have isFull := isNode.leaves_ne_nil
          ((below child isChild).notModule_of_mem_walk (whole.kind?_child_ne isChild) isOther)
        rcases isNode.exists_start isFull with ⟨first, isFirst, sameStart⟩
        exact ⟨first, ((below child isChild).leaves_sublist isOther).subset
          (List.mem_of_head? isFirst), sameStart⟩
      have leaves_eq : (Node.named (.known kind) (cover children) children).leaves =
          children.flatMap leaves := leaves_eq_flatMap rfl
      rw [walk_named]
      refine .cons ?_ ?_
      · intro other isOther
        rcases List.mem_flatMap.mp isOther with ⟨child, isChild, inChild⟩
        rcases inside child isChild other inChild with ⟨leaf, isLeaf, sameStart⟩
        have isInside : leaf ∈ (Node.named (.known kind) (cover children) children).leaves := by
          rw [leaves_eq]
          exact List.mem_flatMap.mpr ⟨child, isChild, isLeaf⟩
        rcases whole.exists_start (List.ne_nil_of_mem isInside) with
          ⟨first, isFirst, sameFirst⟩
        rcases List.head?_eq_some_iff.mp isFirst with ⟨others, isRow⟩
        rw [isRow] at ascending isInside
        rw [sameFirst, sameStart]
        rcases List.mem_cons.mp isInside with rfl | isLater
        · exact Nat.le_refl _
        · exact List.rel_of_pairwise_cons ascending isLater
      · rw [leaves_eq, List.pairwise_flatMap] at ascending
        rw [List.pairwise_flatMap]
        refine ⟨fun child isChild => induction child isChild (ascending.1 child isChild), ?_⟩
        refine ascending.2.imp_of_mem ?_
        intro left right isLeft isRight inOrder other isOther another isAnother
        rcases inside left isLeft other isOther with ⟨leaf, isLeaf, sameStart⟩
        rcases inside right isRight another isAnother with ⟨later, isLater, sameLater⟩
        rw [sameStart, sameLater]
        exact inOrder leaf isLeaf later isLater

/-- The nodes of a parsed tree start later and later on a walk. -/
theorem pairwise_start_of_parse {tree : SyntaxTree}
    (accepted : SyntaxTree.parse source = .ok tree) :
    tree.root.walk.Pairwise fun left right => left.start source ≤ right.start source := by
  apply (grammatical_of_parse accepted).2.1.pairwise_start
  have tiling := tiling_of_parse accepted
  have ascending := List.pairwise_map.mp tiling.ascending
  refine ascending.imp_of_mem ?_
  intro left right isLeft _ inOrder
  have isFull := tiling.full _ (List.mem_map_of_mem isLeft)
  exact Nat.le_of_lt (Nat.lt_of_lt_of_le isFull inOrder)

end ShaderReflection.Tree.Node

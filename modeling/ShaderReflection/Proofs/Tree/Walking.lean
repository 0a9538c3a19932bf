import ShaderReflection.Tree.Node

/-!
# Walking a tree

A walk takes nodes from a stack until there are none left. It comes to the nodes that the outline of
the tree lists, in the same order (`walk_eq_outline`), so it is as recursive as the tree: a node,
and then the walks of its children one after the other (`walk_eq`).
-/

namespace ShaderReflection.Tree.Node

open ShaderReflection.Text ShaderReflection.Wgsl

/-! ## Outlines -/

mutual

theorem map_snd_outline (depth other : Nat) : (node : Node) →
    (node.outline depth).map Prod.snd = (node.outline other).map Prod.snd
  | named label span children => by
      rw [outline, outline, List.map_cons, List.map_cons,
        map_snd_outlineAll (depth + 1) (other + 1) children]
  | token label span => rfl

theorem map_snd_outlineAll (depth other : Nat) : (nodes : List Node) →
    (outlineAll depth nodes).map Prod.snd = (outlineAll other nodes).map Prod.snd
  | [] => rfl
  | node :: rest => by
      rw [outlineAll, outlineAll, List.map_append, List.map_append,
        map_snd_outline depth other node, map_snd_outlineAll depth other rest]

end

theorem map_snd_outlineAll_eq_flatMap (depth : Nat) (nodes : List Node) :
    (outlineAll depth nodes).map Prod.snd =
      nodes.flatMap fun node => (node.outline 0).map Prod.snd := by
  induction nodes with
  | nil => rfl
  | cons node nodes induction =>
      rw [outlineAll, List.map_append, induction, map_snd_outline depth 0, List.flatMap_cons]

theorem map_snd_outline_eq (node : Node) :
    (node.outline 0).map Prod.snd =
      node :: node.children.flatMap fun child => (child.outline 0).map Prod.snd := by
  cases node with
  | named label span children =>
      rw [outline, List.map_cons, map_snd_outlineAll_eq_flatMap]
      rfl
  | token label span => rfl

/-! ## Stacks -/

theorem sizeOfAll_append (nodes others : List Node) :
    sizeOfAll (nodes ++ others) = sizeOfAll nodes + sizeOfAll others := by
  induction nodes with
  | nil => rw [List.nil_append, sizeOfAll, Nat.zero_add]
  | cons node nodes induction =>
      rw [List.cons_append, sizeOfAll, sizeOfAll, induction, Nat.add_assoc]

theorem size_eq (node : Node) : node.size = sizeOfAll node.children + 1 := by
  cases node <;> rfl

/-- The stack holds one node less after every step, counted with all nodes below. -/
theorem sizeOfAll_step {steps : Nat} {node : Node} {stack : List Node}
    (enough : sizeOfAll (node :: stack) ≤ steps + 1) :
    sizeOfAll (node.children ++ stack) ≤ steps := by
  rw [sizeOfAll, size_eq] at enough
  rw [sizeOfAll_append]
  omega

theorem traverse_eq {steps : Nat} {stack : List Node} (enough : sizeOfAll stack ≤ steps) :
    traverse steps stack = stack.flatMap fun node => (node.outline 0).map Prod.snd := by
  induction steps generalizing stack with
  | zero =>
      cases stack with
      | nil => rfl
      | cons node stack =>
          rw [sizeOfAll, size_eq] at enough
          omega
  | succ steps induction =>
      cases stack with
      | nil => rfl
      | cons node stack =>
          rw [traverse, induction (sizeOfAll_step enough), List.flatMap_append, List.flatMap_cons,
            map_snd_outline_eq, List.cons_append]

/-! ## Walks -/

theorem walk_eq_outline (node : Node) : node.walk = (node.outline 0).map Prod.snd := by
  have enough : sizeOfAll [node] ≤ node.size := Nat.le_of_eq (Nat.add_zero _)
  rw [walk, traverse_eq enough, List.flatMap_singleton]

theorem walk_eq (node : Node) : node.walk = node :: node.children.flatMap walk := by
  have same : walk = fun node => (node.outline 0).map Prod.snd := funext walk_eq_outline
  rw [same]
  exact map_snd_outline_eq node

theorem walk_named (label : Label Kind) (span : Option Span) (children : List Node) :
    (named label span children).walk = named label span children :: children.flatMap walk :=
  walk_eq _

theorem walk_token (label : Label Terminal) (span : Span) :
    (token label span).walk = [token label span] :=
  walk_eq _

theorem mem_walk_named {node : Node} {label : Label Kind} {span : Option Span}
    {children : List Node} :
    node ∈ (named label span children).walk ↔
      node = named label span children ∨ ∃ child ∈ children, node ∈ child.walk := by
  rw [walk_named, List.mem_cons, List.mem_flatMap]

theorem mem_walk_token {node : Node} {label : Label Terminal} {span : Span} :
    node ∈ (token label span).walk ↔ node = token label span := by
  rw [walk_token, List.mem_singleton]

end ShaderReflection.Tree.Node

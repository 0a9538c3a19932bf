import ShaderReflection.Tree.Parse

/-!
# Nodes further on in a text

Spans and nodes that move along with the text that they stand in. What they hold stays the same.
-/

namespace ShaderReflection.Text.Span

/-- A span further on in a text. -/
def shift (count : Nat) (span : Span) : Span := ⟨span.start + count, span.stop + count⟩

/-- In front of a text nothing changes what a span holds, if the span moves along. -/
theorem slice_shift (span : Span) (before text : List Char) :
    (span.shift before.length).slice (before ++ text) = span.slice text := by
  rw [shift, slice, slice, Nat.add_sub_add_right, Nat.add_comm, ← List.drop_drop, List.drop_left]

theorem slice_append (span : Span) {text : List Char} (inside : span.stop ≤ text.length)
    (behind : List Char) : span.slice (text ++ behind) = span.slice text := by
  rw [slice, slice, List.drop_append, List.take_append_of_le_length]
  rw [List.length_drop]
  omega

end ShaderReflection.Text.Span

namespace ShaderReflection.Tree

open ShaderReflection.Grammar ShaderReflection.Wgsl ShaderReflection.Text

/-! ## Shifted nodes -/

namespace Node

mutual

/-- The same node further on in a text. -/
def shift (count : Nat) : Node → Node
  | named label span children =>
      .named label (span.map (Span.shift count)) (shiftAll count children)
  | token label span => .token label (span.shift count)

def shiftAll (count : Nat) : List Node → List Node
  | [] => []
  | node :: rest => node.shift count :: shiftAll count rest

end

theorem shiftAll_eq_map (count : Nat) (nodes : List Node) :
    shiftAll count nodes = nodes.map (shift count) := by
  induction nodes with
  | nil => rfl
  | cons node nodes induction => rw [shiftAll, induction, List.map_cons]

theorem span?_shift (count : Nat) (node : Node) :
    (node.shift count).span? = node.span?.map (Span.shift count) := by
  cases node <;> rfl

theorem cover_shiftAll (count : Nat) (nodes : List Node) :
    cover (shiftAll count nodes) = (cover nodes).map (Span.shift count) := by
  have first : (nodes.map (shift count)).head?.bind span? =
      (nodes.head?.bind span?).map (Span.shift count) := by
    rw [List.head?_map]
    cases nodes.head? with
    | none => rfl
    | some node => exact span?_shift count node
  have last : (nodes.map (shift count)).getLast?.bind span? =
      (nodes.getLast?.bind span?).map (Span.shift count) := by
    rw [List.getLast?_map]
    cases nodes.getLast? with
    | none => rfl
    | some node => exact span?_shift count node
  rw [shiftAll_eq_map, cover, cover, first, last]
  cases nodes.head?.bind span? <;> cases nodes.getLast?.bind span? <;> rfl

theorem kind?_shift (count : Nat) (node : Node) : (node.shift count).kind? = node.kind? := by
  cases node with
  | named label span children => cases label <;> rfl
  | token label span => rfl

mutual

theorem shift_zero : (node : Node) → node.shift 0 = node
  | named label span children => by
      rw [shift, shiftAll_zero children]
      cases span <;> rfl
  | token label span => rfl

theorem shiftAll_zero : (nodes : List Node) → shiftAll 0 nodes = nodes
  | [] => rfl
  | node :: rest => by rw [shiftAll, shift_zero node, shiftAll_zero rest]

end

end Node

end ShaderReflection.Tree

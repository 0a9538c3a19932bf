import ShaderReflection.Grammar.Machine

/-!
# The machine builds derivations

Whatever automaton drives it, the machine neither loses nor invents a terminal, and the trees on
its stack follow the grammar. The main statement is `follows_run`: a tree that comes out of a run
is a derivation of the start symbol, and its leaves are the terminals that went in.
-/

namespace ShaderReflection.Grammar

variable {τ ν κ : Type}

/-! ## Leaves -/

namespace Derivation

@[simp] theorem leavesOfAll_append (left right : List (Derivation τ ν κ)) :
    leavesOfAll (left ++ right) = leavesOfAll left ++ leavesOfAll right := by
  induction left with
  | nil => rfl
  | cons tree left induction => simp [leavesOfAll, induction]

end Derivation

namespace Stack

/-- The terminals below a stack, from left to right. -/
def leaves (stack : Stack τ ν κ) : List (τ × κ) := Derivation.leavesOfAll stack.trees

def Follows (rules : Rules τ ν) (stack : Stack τ ν κ) : Prop :=
  ∀ frame ∈ stack, frame.tree.Follows rules

@[simp] theorem leaves_nil : leaves ([] : Stack τ ν κ) = [] := rfl

@[simp] theorem leaves_cons (frame : Frame τ ν κ) (stack : Stack τ ν κ) :
    leaves (frame :: stack) = leaves stack ++ frame.tree.leaves := by
  simp [leaves, trees, Derivation.leavesOfAll]

/-- The trees of a stack are those below some height and those above it. -/
theorem leaves_take_drop (count : Nat) (stack : Stack τ ν κ) :
    leaves (stack.drop count) ++ leaves (stack.take count) = leaves stack := by
  rw [leaves, leaves, leaves, ← Derivation.leavesOfAll_append, trees, trees, trees,
    ← List.reverse_append, ← List.map_append, List.take_append_drop]

theorem Follows.cons {rules : Rules τ ν} {stack : Stack τ ν κ} {frame : Frame τ ν κ}
    (top : frame.tree.Follows rules) (below : stack.Follows rules) :
    Follows rules (frame :: stack) := by
  intro other member
  rcases List.mem_cons.mp member with isTop | isBelow
  · exact isTop ▸ top
  · exact below other isBelow

end Stack

/-! ## Steps -/

namespace Parser

theorem mem_of_action_reduce [Alphabet τ] {parser : Parser τ ν} {number : Nat}
    {ahead : Option τ} {rule : Rule τ ν}
    (reduces : parser.action number ahead = some (.reduce rule)) : rule ∈ parser.rules.list := by
  simp only [action] at reduces
  split at reduces
  · simp at reduces
  · split at reduces
    · simp at reduces
    · simp at reduces
    · rcases Option.map_eq_some_iff.mp reduces with ⟨found, isFound, equal⟩
      cases equal
      exact List.mem_of_getElem? isFound

section Reductions

variable [Alphabet ν] [DecidableEq τ] [DecidableEq ν] {parser : Parser τ ν} {rule : Rule τ ν}
  {stack later : Stack τ ν κ}

/-- A reduction puts one tree in place of its children, in the state that the tree leads to. -/
theorem eq_of_reduce (reduced : parser.reduce rule stack = .ok later) :
    (Stack.trees (stack.take rule.body.length)).map Derivation.symbol = rule.body ∧
      ∃ target, parser.goto (Stack.state (stack.drop rule.body.length)) rule.head = some target ∧
        later = ⟨target, .node rule (Stack.trees (stack.take rule.body.length))⟩ ::
          stack.drop rule.body.length := by
  simp only [reduce] at reduced
  split at reduced
  · rename_i body
    split at reduced
    · rename_i target leads
      cases reduced
      exact ⟨body, target, leads, rfl⟩
    · cases reduced
  · cases reduced

theorem follows_reduce (known : rule ∈ parser.rules.list)
    (reduced : parser.reduce rule stack = .ok later) (follows : stack.Follows parser.rules) :
    later.Follows parser.rules := by
  rcases eq_of_reduce reduced with ⟨body, target, _, rfl⟩
  refine Stack.Follows.cons (.node rule _ known body ?_) ?_
  · intro child isChild
    rcases List.mem_map.mp (List.mem_reverse.mp isChild) with ⟨frame, inFront, equal⟩
    exact equal ▸ follows frame (List.mem_of_mem_take inFront)
  · intro frame isBelow
    exact follows frame (List.mem_of_mem_drop isBelow)

theorem leaves_reduce (reduced : parser.reduce rule stack = .ok later) :
    later.leaves = stack.leaves := by
  rcases eq_of_reduce reduced with ⟨_, target, _, rfl⟩
  rw [Stack.leaves_cons, Derivation.leaves]
  exact Stack.leaves_take_drop rule.body.length stack

end Reductions

/-! ## Runs -/

variable [Alphabet τ] [Alphabet ν] [DecidableEq τ] [DecidableEq ν] {parser : Parser τ ν}
  {stack later : Stack τ ν κ} {tree : Derivation τ ν κ}

/-- Dealing with a terminal adds it to the stack and nothing else. -/
theorem settle_shifted {ahead : Option (τ × κ)} {fuel : Nat}
    (settled : parser.settle ahead fuel stack = .ok (.shifted later))
    (follows : stack.Follows parser.rules) :
    later.Follows parser.rules ∧ later.leaves = stack.leaves ++ ahead.toList := by
  induction fuel generalizing stack with
  | zero => cases settled
  | succ fuel induction =>
      unfold settle at settled
      split at settled
      · cases settled
      · split at settled
        · cases settled
          exact ⟨.cons (.leaf _ _) follows, by simp [Derivation.leaves]⟩
        · cases settled
      · rename_i rule reduces
        split at settled
        · rename_i smaller reduced
          have known := mem_of_action_reduce reduces
          have result := induction settled (follows_reduce known reduced follows)
          exact ⟨result.1, leaves_reduce reduced ▸ result.2⟩
        · cases settled
      · split at settled
        · split at settled <;> cases settled
        · cases settled

/-- An accepted tree is a derivation of the start symbol over all terminals on the stack. -/
theorem settle_accepted {ahead : Option (τ × κ)} {fuel : Nat}
    (settled : parser.settle ahead fuel stack = .ok (.accepted tree))
    (follows : stack.Follows parser.rules) :
    tree.Follows parser.rules ∧ tree.symbol = .nonterminal parser.rules.start ∧
      tree.leaves = stack.leaves := by
  induction fuel generalizing stack with
  | zero => cases settled
  | succ fuel induction =>
      unfold settle at settled
      split at settled
      · cases settled
      · split at settled <;> cases settled
      · rename_i rule reduces
        split at settled
        · rename_i smaller reduced
          have known := mem_of_action_reduce reduces
          have result := induction settled (follows_reduce known reduced follows)
          exact ⟨result.1, result.2.1, leaves_reduce reduced ▸ result.2.2⟩
        · cases settled
      · split at settled
        · split at settled
          · rename_i isStart
            cases settled
            exact ⟨follows _ List.mem_cons_self, isStart, by simp⟩
          · cases settled
        · cases settled

/-- A tree that comes out of a run is a derivation of the start symbol, and its leaves are what was
on the stack and what went in. -/
theorem follows_run {terminals : List (τ × κ)}
    (accepted : parser.run stack terminals = .ok tree) (follows : stack.Follows parser.rules) :
    tree.Follows parser.rules ∧ tree.symbol = .nonterminal parser.rules.start ∧
      tree.leaves = stack.leaves ++ terminals := by
  induction terminals generalizing stack with
  | nil =>
      rw [run] at accepted
      split at accepted
      · rename_i settled
        cases accepted
        simpa using settle_accepted settled follows
      · cases accepted
      · cases accepted
  | cons terminal terminals induction =>
      rw [run] at accepted
      split at accepted
      · rename_i settled
        rcases settle_shifted settled follows with ⟨laterFollows, laterLeaves⟩
        have result := induction accepted laterFollows
        simpa [laterLeaves] using result
      · cases accepted
      · cases accepted

end Parser

end ShaderReflection.Grammar

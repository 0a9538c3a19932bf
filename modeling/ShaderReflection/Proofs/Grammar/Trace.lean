import ShaderReflection.Proofs.Grammar.Acceptance
import ShaderReflection.Proofs.Grammar.Completeness

/-!
# The states of a run

The states that the machine passes through while it is fed terminals. They decide how the next
lexeme is read. While the machine builds a tree they are told by the tree alone (`trace_tree`), so
that they depend neither on the tokens nor on what stands behind them (`trace_eq_of_letters`).
-/

namespace ShaderReflection.Grammar

variable {τ ν κ μ : Type}

/-! ## The same derivation with other tokens -/

namespace Derivation

mutual

def map (change : κ → μ) : Derivation τ ν κ → Derivation τ ν μ
  | .leaf terminal token => .leaf terminal (change token)
  | .node rule children => .node rule (mapAll change children)

def mapAll (change : κ → μ) : List (Derivation τ ν κ) → List (Derivation τ ν μ)
  | [] => []
  | tree :: rest => tree.map change :: mapAll change rest

end

theorem mapAll_eq_map (change : κ → μ) (trees : List (Derivation τ ν κ)) :
    mapAll change trees = trees.map (map change) := by
  induction trees with
  | nil => rfl
  | cons tree trees induction => rw [mapAll, induction, List.map_cons]

theorem symbol_map (change : κ → μ) (tree : Derivation τ ν κ) :
    (tree.map change).symbol = tree.symbol := by
  cases tree <;> rfl

mutual

theorem leaves_map (change : κ → μ) : (tree : Derivation τ ν κ) →
    (tree.map change).leaves = tree.leaves.map (Prod.map id change)
  | .leaf _ _ => rfl
  | .node _ children => leavesOfAll_mapAll change children

theorem leavesOfAll_mapAll (change : κ → μ) : (trees : List (Derivation τ ν κ)) →
    leavesOfAll (mapAll change trees) = (leavesOfAll trees).map (Prod.map id change)
  | [] => rfl
  | tree :: rest => by
      rw [mapAll, leavesOfAll, leavesOfAll, List.map_append, leaves_map, leavesOfAll_mapAll]

end

theorem Follows.map {rules : Rules τ ν} {tree : Derivation τ ν κ} (follows : tree.Follows rules)
    (change : κ → μ) : (tree.map change).Follows rules := by
  induction follows with
  | leaf terminal token => exact .leaf terminal (change token)
  | node rule children known body below induction =>
      rw [Derivation.map, mapAll_eq_map]
      apply Follows.node rule _ known
      · rw [List.map_map, ← body]
        exact List.map_congr_left fun child _ => symbol_map change child
      · intro child isChild
        rcases List.mem_map.mp isChild with ⟨found, isFound, rfl⟩
        exact induction found isFound

end Derivation

namespace Parser

/-! ## States along a tree -/

section Behind

variable [Alphabet τ] [Alphabet ν]

/-- The state after a symbol. -/
def after (parser : Parser τ ν) (number : Nat) (symbol : Symbol τ ν) : Nat :=
  ((parser.state number).target? symbol.numbered).getD 0

mutual

/-- The states behind the leaves of a tree that is built on top of a state. -/
def behind (parser : Parser τ ν) (number : Nat) : Derivation τ ν κ → List Nat
  | .leaf terminal _ => [parser.after number (.terminal terminal)]
  | .node _ children => parser.behindAll number children

def behindAll (parser : Parser τ ν) (number : Nat) : List (Derivation τ ν κ) → List Nat
  | [] => []
  | tree :: rest =>
      parser.behind number tree ++ parser.behindAll (parser.after number tree.symbol) rest

end

mutual

theorem behind_map (parser : Parser τ ν) (change : κ → μ) (number : Nat) :
    (tree : Derivation τ ν κ) → parser.behind number (tree.map change) = parser.behind number tree
  | .leaf _ _ => rfl
  | .node _ children => behindAll_mapAll parser change number children

theorem behindAll_mapAll (parser : Parser τ ν) (change : κ → μ) (number : Nat) :
    (trees : List (Derivation τ ν κ)) →
      parser.behindAll number (Derivation.mapAll change trees) = parser.behindAll number trees
  | [] => rfl
  | tree :: rest => by
      rw [Derivation.mapAll, behindAll, behindAll, behind_map, Derivation.symbol_map,
        behindAll_mapAll]

end

end Behind

/-! ## States along a run -/

section Trace

variable [Alphabet τ] [Alphabet ν] [DecidableEq τ] [DecidableEq ν] {parser : Parser τ ν}
  {rank : ν → Nat} {stack later : Stack τ ν κ}

/-- The states behind the terminals that the machine is fed, as far as it takes them. -/
def trace (parser : Parser τ ν) (stack : Stack τ ν κ) : List (τ × κ) → List Nat
  | [] => []
  | terminal :: rest =>
      match parser.feed stack (some terminal) with
      | .ok (.shifted later) => Stack.state later :: parser.trace later rest
      | _ => []

theorem trace_of_feed {terminal : τ × κ} {rest : List (τ × κ)}
    (shifts : parser.feed stack (some terminal) = .ok (.shifted later)) :
    parser.trace stack (terminal :: rest) = Stack.state later :: parser.trace later rest := by
  rw [trace, shifts]

/-- There is a state for each terminal only if the machine takes them all. -/
theorem exists_feed_of_length {terminal : τ × κ} {rest : List (τ × κ)}
    (complete : (parser.trace stack (terminal :: rest)).length = (terminal :: rest).length) :
    ∃ later, parser.feed stack (some terminal) = .ok (.shifted later) ∧
      (parser.trace later rest).length = rest.length := by
  rw [trace] at complete
  split at complete
  · rename_i later shifts
    exact ⟨later, shifts, Nat.succ.inj complete⟩
  · cases complete

/-- The states behind the first terminals do not depend on what comes later. -/
theorem take_trace (terminals rest : List (τ × κ)) :
    (parser.trace stack (terminals ++ rest)).take terminals.length =
      parser.trace stack terminals := by
  induction terminals generalizing stack with
  | nil => rw [List.length_nil, List.take_zero, trace]
  | cons terminal terminals induction =>
      rw [List.cons_append, trace, trace]
      split
      · rw [List.length_cons, List.take_succ_cons, induction]
      · exact List.take_nil

theorem trace_reduce (valid : parser.Valid) (graded : parser.rules.Graded rank)
    (path : parser.Path stack) {terminals : List (τ × κ)} {rule : Rule τ ν}
    (reduces : parser.action (Stack.state stack) (terminals.head?.map Prod.fst) =
      some (.reduce rule))
    (reduced : parser.reduce rule stack = .ok later) :
    parser.trace stack terminals = parser.trace later terminals := by
  cases terminals with
  | nil => rfl
  | cons terminal rest =>
      have same : parser.feed stack (some terminal) = parser.feed later (some terminal) :=
        feed_reduce valid graded path reduces reduced
      rw [trace, trace, same]

theorem trace_shift {terminal : τ} {token : κ} {rest : List (τ × κ)} {target : Nat}
    (shifts : parser.action (Stack.state stack) (some terminal) = some (.shift target)) :
    parser.trace stack ((terminal, token) :: rest) =
      target :: parser.trace (⟨target, .leaf terminal token⟩ :: stack) rest := by
  rw [trace, feed_shift shifts]
  rfl

/-- The machine passes through the states of a tree while it builds it. -/
def Traces (parser : Parser τ ν) (tree : Derivation τ ν κ) : Prop :=
  ∀ (stack : Stack τ ν κ) (tail : List (τ × κ)) (target : Nat), parser.Path stack →
    (parser.state (Stack.state stack)).target? tree.symbol.numbered = some target →
    parser.Awaits stack tail tree →
    parser.trace stack (tree.leaves ++ tail) =
      parser.behind (Stack.state stack) tree ++ parser.trace (⟨target, tree⟩ :: stack) tail

theorem trace_row (valid : parser.Valid) {trees : List (Derivation τ ν κ)}
    (follow : ∀ tree ∈ trees, tree.Follows parser.rules)
    (traces : ∀ tree ∈ trees, parser.Traces tree) {number : Nat} {tail : List (τ × κ)}
    (path : parser.Path stack)
    (has : (parser.state (Stack.state stack)).Has number (Derivation.row trees)
      (upcoming tail)) :
    ∃ frames : Stack τ ν κ, frames.trees = trees ∧ parser.Path (frames ++ stack) ∧
      (parser.state (Stack.state (frames ++ stack))).Has number [] (upcoming tail) ∧
      parser.trace stack (Derivation.leavesOfAll trees ++ tail) =
        parser.behindAll (Stack.state stack) trees ++ parser.trace (frames ++ stack) tail := by
  induction trees generalizing stack with
  | nil => exact ⟨[], rfl, path, has, rfl⟩
  | cons tree trees induction =>
      rcases List.forall_mem_cons.mp follow with ⟨followsTree, followRest⟩
      rcases List.forall_mem_cons.mp traces with ⟨tracesTree, traceRest⟩
      rcases valid.moves has with ⟨target, leads, further⟩
      have awaits := awaits_of_has valid followsTree followRest has
      have first := tracesTree stack _ target path leads awaits
      have onTop : parser.Path (⟨target, tree⟩ :: stack) := .cons path leads
      have isTarget : parser.after (Stack.state stack) tree.symbol = target := by
        rw [after, leads, Option.getD_some]
      rcases induction followRest traceRest onTop further with
        ⟨frames, isRow, onPath, complete, rest⟩
      refine ⟨frames ++ [⟨target, tree⟩], ?_, ?_, ?_, ?_⟩
      · simp [Stack.trees, ← isRow]
      · simpa using onPath
      · simpa using complete
      · rw [Derivation.leavesOfAll, List.append_assoc, first, rest, behindAll, isTarget,
          List.append_assoc, List.append_assoc]
        rfl

theorem trace_tree (valid : parser.Valid) (graded : parser.rules.Graded rank)
    {tree : Derivation τ ν κ} (follows : tree.Follows parser.rules) : parser.Traces tree := by
  induction follows with
  | leaf terminal token =>
      intro stack tail target path leads awaits
      have isTarget : parser.after (Stack.state stack) (.terminal terminal) = target :=
        congrArg (Option.getD · 0) leads
      rw [behind, isTarget]
      exact trace_shift (action_shift leads)
  | node rule children known body below induction =>
      rintro stack tail target path leads ⟨index, found, has⟩
      rw [row_of_body body] at has
      rcases trace_row valid below induction path has with ⟨frames, rfl, onPath, complete, rest⟩
      rcases reduces_row valid found body complete leads with ⟨reduces, reduced⟩
      rw [Derivation.leaves, rest, behind, trace_reduce valid graded onPath reduces reduced]

/-- The states along the leaves of a derivation of the start symbol. -/
theorem trace_leaves (valid : parser.Valid) (graded : parser.rules.Graded rank)
    {tree : Derivation τ ν κ} (follows : tree.Follows parser.rules)
    (isStart : tree.symbol = .nonterminal parser.rules.start) :
    parser.trace [] tree.leaves = parser.behind 0 tree := by
  rcases awaits_start valid follows isStart with ⟨target, leads, -, awaits⟩
  have traced := trace_tree valid graded follows [] [] target .nil leads awaits
  rw [List.append_nil, trace, List.append_nil] at traced
  exact traced

/-- The states depend on the letters alone. -/
theorem trace_eq_of_letters (valid : parser.Valid) (graded : parser.rules.Graded rank)
    {left : Derivation τ ν κ} {right : Derivation τ ν μ} (leftFollows : left.Follows parser.rules)
    (rightFollows : right.Follows parser.rules)
    (leftStarts : left.symbol = .nonterminal parser.rules.start)
    (rightStarts : right.symbol = .nonterminal parser.rules.start)
    (sameLetters : left.leaves.map Prod.fst = right.leaves.map Prod.fst) :
    parser.trace [] left.leaves = parser.trace [] right.leaves := by
  -- Without their tokens the two derivations have the same leaves, so they are the same.
  have forget : ∀ {ι : Type} (tree : Derivation τ ν ι), (tree.map fun _ => ()).leaves =
      (tree.leaves.map Prod.fst).map fun letter => (letter, ()) := by
    intro ι tree
    rw [Derivation.leaves_map, List.map_map]
    rfl
  have leftBuilt := run_leaves valid graded (leftFollows.map fun _ => ())
    ((left.symbol_map _).trans leftStarts)
  have rightBuilt := run_leaves valid graded (rightFollows.map fun _ => ())
    ((right.symbol_map _).trans rightStarts)
  rw [forget, sameLetters, ← forget, rightBuilt] at leftBuilt
  have same := Except.ok.inj leftBuilt
  rw [trace_leaves valid graded leftFollows leftStarts,
    trace_leaves valid graded rightFollows rightStarts, ← parser.behind_map (fun _ => ()) 0 left,
    ← same, behind_map]

theorem length_trace {terminals : List (τ × κ)} {tree : Derivation τ ν κ}
    (built : parser.run stack terminals = .ok tree) :
    (parser.trace stack terminals).length = terminals.length := by
  induction terminals generalizing stack with
  | nil => rfl
  | cons terminal terminals induction =>
      rcases exists_feed_of_run built with ⟨later, shifts, further⟩
      rw [trace, shifts, List.length_cons, induction further, List.length_cons]

theorem accepts_end {tree : Derivation τ ν κ} (built : parser.run stack [] = .ok tree) :
    (parser.state (Stack.state stack)).accepted.contains none = true := by
  cases completes : (parser.state (Stack.state stack)).complete? none with
  | some rule => exact State.accepts_of_complete? completes
  | none =>
      rw [run, feed] at built
      cases fuel : parser.patience stack with
      | zero => simp [fuel, settle] at built
      | succ fuel' => simp [fuel, settle, action, completes] at built

/-- At the end of an input the machine stands behind its last terminal, and accepts the end. -/
theorem exists_end_of_run {before : Option τ} (isBehind : parser.Behind stack before)
    {terminals : List (τ × κ)} {tree : Derivation τ ν κ}
    (built : parser.run stack terminals = .ok tree) :
    ∃ later : Stack τ ν κ, parser.Behind later ((terminals.getLast?.map Prod.fst).or before) ∧
      (Stack.state stack :: parser.trace stack terminals).getLast? = some (Stack.state later) ∧
      (parser.state (Stack.state later)).accepted.contains none = true := by
  induction terminals generalizing stack before with
  | nil => exact ⟨stack, isBehind, rfl, accepts_end built⟩
  | cons terminal terminals induction =>
      rcases terminal with ⟨letter, token⟩
      rcases exists_feed_of_run built with ⟨later, shifts, further⟩
      rcases induction (behind_of_feed shifts).2 further with ⟨final, isLast, ends, accepts⟩
      refine ⟨final, ?_, ?_, accepts⟩
      · rw [List.getLast?_cons]
        cases last : terminals.getLast? with
        | none => simpa [last] using isLast
        | some terminal => simpa [last] using isLast
      · rw [trace, shifts, List.getLast?_cons_cons]
        exact ends

end Trace

end Parser

end ShaderReflection.Grammar

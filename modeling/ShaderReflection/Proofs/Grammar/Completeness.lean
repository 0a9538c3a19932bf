import ShaderReflection.Proofs.Grammar.Validity

/-!
# The machine finds every derivation

The converse of `ShaderReflection.Grammar.Soundness`: driven by a valid automaton, the machine
takes the leaves of a derivation of the start symbol and gives the derivation back. The main
statement is `run_leaves`. It has two parts: reductions come to an end before the patience of the
machine does, so that fuel can be left out of account (`settle_of_weight_lt`), and the machine
builds a tree on top of any stack in which the rule of the tree is under way (`run_tree`).
-/

namespace ShaderReflection.Grammar

variable {τ ν κ : Type}

/-- The number of the terminal in front of a row, or `none` at its end. -/
def upcoming [Alphabet τ] (terminals : List (τ × κ)) : Option Nat :=
  terminals.head?.map fun terminal => Alphabet.number terminal.1

/-- The symbols at the top of a row of trees, by their numbers. -/
def Derivation.row [Alphabet τ] [Alphabet ν] (trees : List (Derivation τ ν κ)) :
    List (Symbol Nat Nat) :=
  trees.map fun tree => tree.symbol.numbered

/-! ## Beginnings of derivations -/

section Beginnings

variable [Alphabet τ] [Alphabet ν] {table : Beginnings}

/-- A table of beginnings knows how a tree begins. -/
def Beginnings.Knows (table : Beginnings) : Derivation τ ν κ → Prop
  | .leaf _ _ => True
  | .node rule children =>
      match Derivation.leavesOfAll children with
      | [] => (table.find (Alphabet.number rule.head)).nullable = true
      | terminal :: _ =>
          (table.find (Alphabet.number rule.head)).first.contains
            (some (Alphabet.number terminal.1)) = true

/-- How a row of trees begins: with its first terminal, or with what follows it. -/
theorem Beginnings.front_knows {trees : List (Derivation τ ν κ)}
    (known : ∀ tree ∈ trees, table.Knows tree) (after : Beginning) :
    let front := table.front after (Derivation.row trees)
    match Derivation.leavesOfAll trees with
    | [] =>
        (∀ ahead, after.first.contains ahead = true → front.first.contains ahead = true) ∧
          (after.nullable = true → front.nullable = true)
    | terminal :: _ => front.first.contains (some (Alphabet.number terminal.1)) = true := by
  induction trees with
  | nil => exact ⟨fun _ member => member, fun nullable => nullable⟩
  | cons tree trees induction =>
      have later := induction fun other isOther => known other (List.mem_cons_of_mem _ isOther)
      have knowsTree := known tree List.mem_cons_self
      cases tree with
      | leaf terminal token =>
          simp [Derivation.leavesOfAll, Derivation.leaves, Derivation.row, Derivation.symbol,
            Symbol.numbered, Beginnings.front]
      | node rule children =>
          simp only [Knows] at knowsTree
          have step : Derivation.row (.node rule children :: trees) =
              .nonterminal (Alphabet.number rule.head) :: Derivation.row trees := rfl
          simp only [step, Beginnings.front, Derivation.leavesOfAll, Derivation.leaves]
          cases search : table.find (Alphabet.number rule.head) with
          | mk first nullable =>
              rw [search] at knowsTree
              cases front : Derivation.leavesOfAll children with
              | nil =>
                  simp only [front] at knowsTree
                  subst knowsTree
                  simp only [List.nil_append]
                  cases rest : Derivation.leavesOfAll trees with
                  | nil =>
                      simp only [rest] at later
                      refine ⟨fun ahead member => ?_, later.2⟩
                      simp [later.1 ahead member]
                  | cons terminal others =>
                      simp only [rest] at later
                      simp [later]
              | cons terminal others =>
                  simp only [front] at knowsTree
                  cases nullable with
                  | false => exact knowsTree
                  | true => simp [knowsTree]

theorem Beginnings.knows_of_respects {rules : Rules τ ν}
    (respects : ∀ rule ∈ rules.numbered.list, table.Respects rule) {tree : Derivation τ ν κ}
    (follows : tree.Follows rules) : table.Knows tree := by
  induction follows with
  | leaf terminal token => trivial
  | node rule children isRule isBody below induction =>
      have numbered : (⟨Alphabet.number rule.head, rule.body.map Symbol.numbered⟩ :
          Rule Nat Nat) ∈ rules.numbered.list :=
        List.mem_map.mpr ⟨rule, isRule, rfl⟩
      have respected := respects _ numbered
      have front := front_knows induction ⟨Lookaheads.empty, true⟩
      have isRow : rule.body.map Symbol.numbered = Derivation.row children := by
        rw [← isBody, Derivation.row, List.map_map]
        rfl
      rw [isRow, Respects] at respected
      simp only [Knows]
      split
      · rename_i isEmpty
        simp only [isEmpty] at front
        exact respected.2 (front.2 trivial)
      · rename_i terminal others isFull
        simp only [isFull] at front
        exact respected.1 _ front

/-- What comes after a symbol is among the lookaheads of the symbols behind it. -/
theorem Beginnings.contains_upcoming {rules : Rules τ ν}
    (respects : ∀ rule ∈ rules.numbered.list, table.Respects rule)
    {trees : List (Derivation τ ν κ)} (follow : ∀ tree ∈ trees, tree.Follows rules)
    (tail : List (τ × κ)) :
    (table.lookaheads (Derivation.row trees)
      (.singleton (upcoming tail))).contains
        (upcoming (Derivation.leavesOfAll trees ++ tail)) = true := by
  have front := front_knows (fun tree isTree => knows_of_respects respects (follow tree isTree))
    ⟨.singleton (upcoming tail), true⟩
  rw [lookaheads]
  cases leaves : Derivation.leavesOfAll trees with
  | nil =>
      simp only [leaves] at front
      exact front.1 _ (by simp)
  | cons terminal others =>
      simp only [leaves] at front
      exact front

end Beginnings

/-! ## Reductions come to an end -/

def Symbol.rank (rank : ν → Nat) : Symbol τ ν → Nat
  | .terminal _ => 0
  | .nonterminal letter => rank letter

/-- Ranks of nonterminals that rise wherever a rule has a single symbol, so that no nonterminal can
turn into itself. -/
structure Rules.Graded (rules : Rules τ ν) (rank : ν → Nat) : Prop where
  bounded : ∀ letter, rank letter < rules.list.length
  rises : ∀ rule ∈ rules.list, ∀ symbol, rule.body = [symbol] →
    symbol.rank rank < rank rule.head

/-- Ranks can be tested rule by rule. -/
theorem Rules.graded_of_tests {rules : Rules τ ν} {rank : ν → Nat}
    (bounded : ∀ letter, rank letter < rules.list.length)
    (rising : ∀ rule ∈ rules.list, rule.body.length = 1 → ∀ symbol ∈ rule.body,
      symbol.rank rank < rank rule.head) : rules.Graded rank := by
  refine ⟨bounded, ?_⟩
  intro rule isRule symbol body
  apply rising rule isRule
  · rw [body]
    rfl
  · rw [body]
    exact List.mem_cons_self

/-- A bound on the reductions that a stack allows. An empty stack allows one more than a stack of
one tree, because a rule without symbols may be applied to it. -/
def Stack.weight (count : Nat) (rank : ν → Nat) : Stack τ ν κ → Nat
  | [] => 2 * count
  | frame :: rest => count * (rest.length + 1) + (count - 1 - frame.tree.symbol.rank rank)

theorem Stack.weight_node (count target : Nat) (rank : ν → Nat) (rule : Rule τ ν)
    (children : List (Derivation τ ν κ)) (below : Stack τ ν κ) :
    Stack.weight count rank (⟨target, .node rule children⟩ :: below) =
      count * (below.length + 1) + (count - 1 - rank rule.head) :=
  rfl

namespace Parser

theorem weight_lt_patience {parser : Parser τ ν} {rank : ν → Nat}
    (graded : parser.rules.Graded rank) (stack : Stack τ ν κ) :
    stack.weight parser.rules.list.length rank < parser.patience stack := by
  have positive := graded.bounded parser.rules.start
  rw [patience]
  generalize parser.rules.list.length = count at positive ⊢
  cases stack with
  | nil =>
      simp only [Stack.weight, List.length_nil]
      omega
  | cons frame rest =>
      have expand : (rest.length + 1 + 2) * (count + 1) =
          count * (rest.length + 1) + 2 * count + (rest.length + 1 + 2) := by
        rw [Nat.mul_succ, Nat.add_mul, Nat.mul_comm]
      rw [Stack.weight, List.length_cons, expand]
      omega

section Weight

variable [Alphabet ν] [DecidableEq τ] [DecidableEq ν] {parser : Parser τ ν}
  {rank : ν → Nat} {rule : Rule τ ν} {stack later : Stack τ ν κ}

theorem length_of_reduce (reduced : parser.reduce rule stack = .ok later) :
    rule.body.length ≤ stack.length := by
  have spelled := congrArg List.length (eq_of_reduce reduced).1
  rw [List.length_map, Stack.trees, List.length_reverse, List.length_map,
    List.length_take] at spelled
  omega

theorem weight_reduce (graded : parser.rules.Graded rank) (known : rule ∈ parser.rules.list)
    (reduced : parser.reduce rule stack = .ok later) (fills : rule.body = [] → stack = []) :
    later.weight parser.rules.list.length rank < stack.weight parser.rules.list.length rank := by
  have short := length_of_reduce reduced
  have headBound := graded.bounded rule.head
  rcases eq_of_reduce reduced with ⟨spelled, target, -, rfl⟩
  generalize parser.rules.list.length = count at headBound ⊢
  cases body : rule.body with
  | nil =>
      have isEmpty := fills body
      subst isEmpty
      rw [Stack.weight_node, Stack.weight, List.drop_nil, List.length_nil]
      omega
  | cons symbol rest =>
      rw [body] at short spelled
      cases stack with
      | nil => simp at short
      | cons top below =>
          cases rest with
          | nil =>
              have isTop : top.tree.symbol = symbol := by
                simpa [Stack.trees] using spelled
              have higher := graded.rises rule known symbol body
              rw [Stack.weight_node, Stack.weight, isTop, List.length_singleton,
                List.drop_succ_cons, List.drop_zero]
              omega
          | cons second more =>
              simp only [List.length_cons] at short
              rw [Stack.weight_node, Stack.weight]
              simp only [List.length_cons, List.length_drop]
              -- The stack gets shorter, and one frame weighs more than any difference in rank.
              have fewer : below.length + 1 - (more.length + 1 + 1) + 1 ≤ below.length := by omega
              have lighter := Nat.mul_le_mul_left count fewer
              have expand : count * (below.length + 1) = count * below.length + count :=
                Nat.mul_succ count below.length
              omega

theorem reduce_row {rule : Rule τ ν} {frames : Stack τ ν κ} {target : Nat}
    (body : frames.trees.map Derivation.symbol = rule.body)
    (leads : parser.goto (Stack.state stack) rule.head = some target) :
    parser.reduce rule (frames ++ stack) = .ok (⟨target, .node rule frames.trees⟩ :: stack) := by
  have count : rule.body.length = frames.length := by
    rw [← body, List.length_map, Stack.trees, List.length_reverse, List.length_map]
  rw [reduce, count, List.take_left, List.drop_left]
  simp only [body, leads, if_true]

end Weight

/-! ## What a state does -/

section Actions

variable [Alphabet τ] {parser : Parser τ ν} {number : Nat}

theorem has_of_action_reduce {ahead : Option τ} {rule : Rule τ ν}
    (reduces : parser.action number ahead = some (.reduce rule)) :
    ∃ index, parser.rules.list[index]? = some rule ∧
      (parser.state number).Has (index + 1) [] (ahead.map Alphabet.number) := by
  simp only [action] at reduces
  split at reduces
  · cases reduces
  · split at reduces
    · cases reduces
    · cases reduces
    · rename_i index complete
      rcases Option.map_eq_some_iff.mp reduces with ⟨found, isFound, equal⟩
      cases equal
      rcases Option.map_eq_some_iff.mp complete with ⟨item, isItem, isRule⟩
      have passes := List.find?_some isItem
      simp only [Bool.and_eq_true, List.isEmpty_iff] at passes
      exact ⟨index, isFound, item, List.mem_of_find?_eq_some isItem, isRule, passes⟩

theorem action_shift {letter : τ} {target : Nat}
    (leads : (parser.state number).target? (.terminal (Alphabet.number letter)) = some target) :
    parser.action number (some letter) = some (.shift target) := by
  simp [action, leads]

variable [Alphabet ν]

theorem Valid.no_shift (valid : parser.Valid) {ahead : Option τ} {rule : Nat}
    (has : (parser.state number).Has rule [] (ahead.map Alphabet.number)) :
    (ahead.bind fun letter =>
      (parser.state number).target? (.terminal (Alphabet.number letter))) = none := by
  cases ahead with
  | none => rfl
  | some letter => exact (valid.completes has).2 _ rfl

theorem Valid.action_reduce (valid : parser.Valid) {ahead : Option τ} {index : Nat}
    {rule : Rule τ ν} (found : parser.rules.list[index]? = some rule)
    (has : (parser.state number).Has (index + 1) [] (ahead.map Alphabet.number)) :
    parser.action number ahead = some (.reduce rule) := by
  simp [action, valid.no_shift has, (valid.completes has).1, found]

theorem Valid.action_accept (valid : parser.Valid)
    (has : (parser.state number).Has 0 [] none) : parser.action number none = some .accept := by
  simp [action, (valid.completes has).1]

end Actions

/-! ## Stacks along the automaton -/

/-- Every tree on the stack leads from the state below it to its own state. -/
inductive Path [Alphabet τ] [Alphabet ν] (parser : Parser τ ν) : Stack τ ν κ → Prop
  | nil : Path parser []
  | cons {frame : Frame τ ν κ} {stack : Stack τ ν κ} (below : Path parser stack)
      (leads : (parser.state (Stack.state stack)).target? frame.tree.symbol.numbered =
        some frame.state) : Path parser (frame :: stack)

namespace Path

variable [Alphabet τ] [Alphabet ν] {parser : Parser τ ν} {stack later : Stack τ ν κ}

theorem drop (path : parser.Path stack) (count : Nat) : parser.Path (stack.drop count) := by
  induction path generalizing count with
  | nil =>
      rw [List.drop_nil]
      exact .nil
  | cons below leads induction =>
      cases count with
      | zero => exact .cons below leads
      | succ count => exact induction count

theorem reduce [DecidableEq τ] [DecidableEq ν] {rule : Rule τ ν} (path : parser.Path stack)
    (reduced : parser.reduce rule stack = .ok later) : parser.Path later := by
  rcases eq_of_reduce reduced with ⟨-, target, leads, rfl⟩
  exact .cons (path.drop _) leads

/-- A rule without symbols is complete only on an empty stack. -/
theorem eq_nil (path : parser.Path stack) (valid : parser.Valid) {ahead : Option τ}
    {rule : Rule τ ν}
    (reduces : parser.action (Stack.state stack) ahead = some (.reduce rule))
    (isEmpty : rule.body = []) : stack = [] := by
  cases path with
  | nil => rfl
  | cons below leads =>
      rcases has_of_action_reduce reduces with ⟨index, found, has⟩
      exact absurd isEmpty (valid.fills leads found has)

end Path

section Awaits

variable [Alphabet τ] [Alphabet ν] {parser : Parser τ ν} {stack : Stack τ ν κ}

/-- The rule at the top of a tree is under way, and may be complete before what comes behind. -/
def Awaits (parser : Parser τ ν) (stack : Stack τ ν κ) (tail : List (τ × κ)) :
    Derivation τ ν κ → Prop
  | .leaf _ _ => True
  | .node rule _ =>
      ∃ index, parser.rules.list[index]? = some rule ∧
        (parser.state (Stack.state stack)).Has (index + 1) (rule.body.map Symbol.numbered)
          (upcoming tail)

theorem awaits_of_has (valid : parser.Valid) {tree : Derivation τ ν κ}
    {trees : List (Derivation τ ν κ)} (followsTree : tree.Follows parser.rules)
    (follow : ∀ other ∈ trees, other.Follows parser.rules) {number : Nat} {tail : List (τ × κ)}
    (has : (parser.state (Stack.state stack)).Has number
      (tree.symbol.numbered :: Derivation.row trees) (upcoming tail)) :
    parser.Awaits stack (Derivation.leavesOfAll trees ++ tail) tree := by
  cases followsTree with
  | leaf terminal token => trivial
  | node rule children known body below =>
      rcases List.mem_iff_getElem?.mp known with ⟨index, found⟩
      exact ⟨index, found, valid.closes has found rfl
        (Beginnings.contains_upcoming valid.respects follow tail)⟩

theorem row_of_body {rule : Rule τ ν} {children : List (Derivation τ ν κ)}
    (body : children.map Derivation.symbol = rule.body) :
    rule.body.map Symbol.numbered = Derivation.row children := by
  rw [← body, Derivation.row, List.map_map]
  rfl

/-- An empty stack awaits a derivation of the start symbol, and accepts behind it. -/
theorem awaits_start (valid : parser.Valid) {tree : Derivation τ ν κ}
    (follows : tree.Follows parser.rules)
    (isStart : tree.symbol = .nonterminal parser.rules.start) :
    ∃ target, (parser.state 0).target? tree.symbol.numbered = some target ∧
      (parser.state target).Has 0 [] none ∧ parser.Awaits [] [] tree := by
  have isRow : Derivation.row [tree] = [.nonterminal (Alphabet.number parser.rules.start)] := by
    rw [Derivation.row, List.map_singleton, isStart]
    rfl
  have begins := valid.begins
  rw [← isRow] at begins
  rcases valid.moves begins with ⟨target, leads, complete⟩
  have noOther : ∀ other ∈ ([] : List (Derivation τ ν κ)), other.Follows parser.rules := by simp
  exact ⟨target, leads, complete, awaits_of_has valid follows noOther begins⟩

end Awaits

/-! ## Runs without fuel -/

section Runs

variable [Alphabet τ] [Alphabet ν] [DecidableEq τ] [DecidableEq ν] {parser : Parser τ ν}
  {rank : ν → Nat} {stack later : Stack τ ν κ}

theorem settle_of_weight_lt (valid : parser.Valid) (graded : parser.rules.Graded rank)
    (path : parser.Path stack) {ahead : Option (τ × κ)} {fuel more : Nat}
    (enough : stack.weight parser.rules.list.length rank < fuel)
    (enoughToo : stack.weight parser.rules.list.length rank < more) :
    parser.settle ahead fuel stack = parser.settle ahead more stack := by
  induction fuel generalizing stack more with
  | zero => omega
  | succ fuel induction =>
      cases more with
      | zero => omega
      | succ more =>
          simp only [settle]
          cases acts : parser.action (Stack.state stack) (ahead.map Prod.fst) with
          | none => rfl
          | some action =>
              cases action with
              | shift target => rfl
              | accept => rfl
              | reduce rule =>
                  dsimp only
                  cases reduced : parser.reduce rule stack with
                  | error failure => rfl
                  | ok smaller =>
                      have lighter := weight_reduce graded (mem_of_action_reduce acts) reduced
                        (path.eq_nil valid acts)
                      exact induction (path.reduce reduced) (by omega) (by omega)

theorem feed_reduce (valid : parser.Valid) (graded : parser.rules.Graded rank)
    (path : parser.Path stack) {ahead : Option (τ × κ)} {rule : Rule τ ν}
    (reduces : parser.action (Stack.state stack) (ahead.map Prod.fst) = some (.reduce rule))
    (reduced : parser.reduce rule stack = .ok later) :
    parser.feed stack ahead = parser.feed later ahead := by
  have enough := weight_lt_patience graded stack
  have lighter := weight_reduce graded (mem_of_action_reduce reduces) reduced
    (path.eq_nil valid reduces)
  rw [feed, feed]
  cases fuel : parser.patience stack with
  | zero => omega
  | succ fuel =>
      simp only [settle, reduces, reduced]
      exact settle_of_weight_lt valid graded (path.reduce reduced) (by omega)
        (weight_lt_patience graded later)

theorem run_reduce (valid : parser.Valid) (graded : parser.rules.Graded rank)
    (path : parser.Path stack) {terminals : List (τ × κ)} {rule : Rule τ ν}
    (reduces : parser.action (Stack.state stack) (terminals.head?.map Prod.fst) =
      some (.reduce rule))
    (reduced : parser.reduce rule stack = .ok later) :
    parser.run stack terminals = parser.run later terminals := by
  cases terminals with
  | nil =>
      have same : parser.feed stack none = parser.feed later none :=
        feed_reduce valid graded path reduces reduced
      simp only [run, same]
  | cons terminal rest =>
      have same : parser.feed stack (some terminal) = parser.feed later (some terminal) :=
        feed_reduce valid graded path reduces reduced
      simp only [run, same]

theorem feed_shift {terminal : τ} {token : κ} {target : Nat}
    (shifts : parser.action (Stack.state stack) (some terminal) = some (.shift target)) :
    parser.feed stack (some (terminal, token)) =
      .ok (.shifted (⟨target, .leaf terminal token⟩ :: stack)) := by
  have positive : 0 < parser.patience stack :=
    Nat.mul_pos (Nat.succ_pos _) (Nat.succ_pos _)
  rw [feed]
  cases fuel : parser.patience stack with
  | zero => omega
  | succ fuel => simp [settle, shifts]

theorem run_shift {terminal : τ} {token : κ} {rest : List (τ × κ)} {target : Nat}
    (shifts : parser.action (Stack.state stack) (some terminal) = some (.shift target)) :
    parser.run stack ((terminal, token) :: rest) =
      parser.run (⟨target, .leaf terminal token⟩ :: stack) rest := by
  simp only [run, feed_shift shifts]

/-! ## Building a derivation -/

/-- The machine builds a tree from its leaves, on any stack that awaits it. -/
def Builds (parser : Parser τ ν) (tree : Derivation τ ν κ) : Prop :=
  ∀ (stack : Stack τ ν κ) (tail : List (τ × κ)) (target : Nat), parser.Path stack →
    (parser.state (Stack.state stack)).target? tree.symbol.numbered = some target →
    parser.Awaits stack tail tree →
    parser.run stack (tree.leaves ++ tail) = parser.run (⟨target, tree⟩ :: stack) tail

/-- The machine builds a row of trees one by one while a rule that asks for them is under way, and
the rule is complete behind the last of them. -/
theorem run_row (valid : parser.Valid) {trees : List (Derivation τ ν κ)}
    (follow : ∀ tree ∈ trees, tree.Follows parser.rules)
    (builds : ∀ tree ∈ trees, parser.Builds tree) {number : Nat} {tail : List (τ × κ)}
    (path : parser.Path stack)
    (has : (parser.state (Stack.state stack)).Has number (Derivation.row trees)
      (upcoming tail)) :
    ∃ frames : Stack τ ν κ, frames.trees = trees ∧ parser.Path (frames ++ stack) ∧
      (parser.state (Stack.state (frames ++ stack))).Has number [] (upcoming tail) ∧
      parser.run stack (Derivation.leavesOfAll trees ++ tail) =
        parser.run (frames ++ stack) tail := by
  induction trees generalizing stack with
  | nil => exact ⟨[], rfl, path, has, rfl⟩
  | cons tree trees induction =>
      have followsTree := follow tree List.mem_cons_self
      have followRest : ∀ other ∈ trees, other.Follows parser.rules :=
        fun other isOther => follow other (List.mem_cons_of_mem _ isOther)
      rcases valid.moves has with ⟨target, leads, further⟩
      have awaits := awaits_of_has valid followsTree followRest has
      have first := builds tree List.mem_cons_self stack _ target path leads awaits
      have onTop : parser.Path (⟨target, tree⟩ :: stack) := .cons path leads
      have buildRest := fun other isOther => builds other (List.mem_cons_of_mem _ isOther)
      rcases induction followRest buildRest onTop further with
        ⟨frames, isRow, onPath, complete, rest⟩
      refine ⟨frames ++ [⟨target, tree⟩], ?_, ?_, ?_, ?_⟩
      · simp [Stack.trees, ← isRow]
      · simpa using onPath
      · simpa using complete
      · rw [Derivation.leavesOfAll, List.append_assoc, first, rest, List.append_assoc,
          List.singleton_append]

/-- Behind the last tree of a complete rule the machine puts them under one node. -/
theorem reduces_row (valid : parser.Valid) {rule : Rule τ ν} {index target : Nat}
    (found : parser.rules.list[index]? = some rule) {frames : Stack τ ν κ}
    (body : frames.trees.map Derivation.symbol = rule.body) {tail : List (τ × κ)}
    (complete : (parser.state (Stack.state (frames ++ stack))).Has (index + 1) []
      (upcoming tail))
    (leads : parser.goto (Stack.state stack) rule.head = some target) :
    parser.action (Stack.state (frames ++ stack)) (tail.head?.map Prod.fst) =
        some (.reduce rule) ∧
      parser.reduce rule (frames ++ stack) =
        .ok (⟨target, .node rule frames.trees⟩ :: stack) := by
  have ahead : upcoming tail = (tail.head?.map Prod.fst).map Alphabet.number := by
    rw [upcoming, Option.map_map]
    rfl
  rw [ahead] at complete
  exact ⟨valid.action_reduce found complete, reduce_row body leads⟩

theorem run_tree (valid : parser.Valid) (graded : parser.rules.Graded rank)
    {tree : Derivation τ ν κ} (follows : tree.Follows parser.rules) : parser.Builds tree := by
  induction follows with
  | leaf terminal token =>
      intro stack tail target path leads awaits
      exact run_shift (action_shift leads)
  | node rule children known body below induction =>
      rintro stack tail target path leads ⟨index, found, has⟩
      rw [row_of_body body] at has
      rcases run_row valid below induction path has with ⟨frames, rfl, onPath, complete, rest⟩
      rcases reduces_row valid found body complete leads with ⟨reduces, reduced⟩
      rw [Derivation.leaves, rest, run_reduce valid graded onPath reduces reduced]

/-- The machine gives back every derivation of the start symbol from its leaves. -/
theorem run_leaves (valid : parser.Valid) (graded : parser.rules.Graded rank)
    {tree : Derivation τ ν κ} (follows : tree.Follows parser.rules)
    (isStart : tree.symbol = .nonterminal parser.rules.start) :
    parser.run [] tree.leaves = .ok tree := by
  rcases awaits_start valid follows isStart with ⟨target, leads, complete, awaits⟩
  have built := run_tree valid graded follows [] [] target .nil leads awaits
  have accepts : parser.action target none = some .accept := valid.action_accept complete
  have accepted : parser.feed [⟨target, tree⟩] none = .ok (.accepted tree) := by
    have positive : 0 < parser.patience [⟨target, tree⟩] :=
      Nat.mul_pos (Nat.succ_pos _) (Nat.succ_pos _)
    rw [feed]
    cases fuel : parser.patience [⟨target, tree⟩] with
    | zero => omega
    | succ fuel => simp [settle, Stack.state, accepts, isStart]
  rw [List.append_nil] at built
  simp only [built, run, accepted]

end Runs

end Parser

end ShaderReflection.Grammar

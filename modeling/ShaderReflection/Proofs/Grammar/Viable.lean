import ShaderReflection.Proofs.Grammar.Safety

/-!
# Viable prefixes

What the machine has on its stack is the front of a sentence: it can be completed to the leaves of a
derivation of the start symbol (`Path.completes_stack`). In a viable automaton some rule that is
under way behind a symbol can be finished, and the head of every rule that begins in a state has a
place there, at the end of a chain of rules that starts with one that is under way (`Linked`). So
the stack is taken down rule by rule until only the start symbol is left.

The terminals of the completion can be restricted to plain ones. Which these are is up to the
grammar at hand.
-/

namespace ShaderReflection.Grammar

variable {τ ν κ μ : Type} {plain : Nat → Bool}

/-! ## Rows of plain terminals -/

def Symbol.isPlain (plain : Nat → Bool) : Symbol Nat Nat → Bool
  | .terminal letter => plain letter
  | .nonterminal _ => true

/-- All terminals of a row are plain. -/
def AllPlain [Alphabet τ] (plain : Nat → Bool) (terminals : List (τ × κ)) : Prop :=
  ∀ terminal ∈ terminals, plain (Alphabet.number terminal.1) = true

section Rows

variable [Alphabet τ] {left right : List (τ × κ)}

theorem allPlain_nil : AllPlain plain ([] : List (τ × κ)) :=
  fun _ isMember => absurd isMember List.not_mem_nil

theorem AllPlain.append (leftPlain : AllPlain plain left) (rightPlain : AllPlain plain right) :
    AllPlain plain (left ++ right) :=
  List.forall_mem_append.mpr ⟨leftPlain, rightPlain⟩

end Rows

/-! ## Sample derivations -/

section Fruitful

variable [Alphabet τ] {rules : Rules τ ν} {height : ν → Nat}

/-- A derivation of a symbol with plain leaves. -/
def Rules.Samples (rules : Rules τ ν) (plain : Nat → Bool) (symbol : Symbol τ ν)
    (tree : Derivation τ ν κ) : Prop :=
  tree.Follows rules ∧ tree.symbol = symbol ∧ AllPlain plain tree.leaves

theorem exists_samples_row {row : List (Symbol τ ν)}
    (each : ∀ symbol ∈ row, ∃ tree : Derivation τ ν κ, rules.Samples plain symbol tree) :
    ∃ trees : List (Derivation τ ν κ), trees.map Derivation.symbol = row ∧
      (∀ tree ∈ trees, tree.Follows rules) ∧ AllPlain plain (Derivation.leavesOfAll trees) := by
  induction row with
  | nil => exact ⟨[], rfl, by simp, allPlain_nil⟩
  | cons symbol row induction =>
      rcases List.forall_mem_cons.mp each with ⟨⟨tree, follows, isSymbol, arePlain⟩, others⟩
      rcases induction others with ⟨trees, isRow, follow, othersPlain⟩
      exact ⟨tree :: trees, by rw [List.map_cons, isSymbol, isRow],
        List.forall_mem_cons.mpr ⟨follows, follow⟩, arePlain.append othersPlain⟩

variable [Alphabet ν]

/-- Every nonterminal has a rule whose terminals are plain and whose nonterminals are lower. -/
def Rules.Fruitful (rules : Rules τ ν) (plain : Nat → Bool) (height : ν → Nat) : Prop :=
  ∀ letter, ∃ rule ∈ rules.list, rule.head = letter ∧ ∀ symbol ∈ rule.body,
    symbol.numbered.isPlain plain = true ∧
      ∀ other, symbol = .nonterminal other → height other < height letter

/-- Where all nonterminals of a row have sample derivations, its plain symbols have them. -/
theorem exists_samples_symbol (token : κ) {symbol : Symbol τ ν}
    (isPlain : symbol.numbered.isPlain plain = true)
    (below : ∀ letter, symbol = .nonterminal letter →
      ∃ tree : Derivation τ ν κ, rules.Samples plain (.nonterminal letter) tree) :
    ∃ tree : Derivation τ ν κ, rules.Samples plain symbol tree := by
  cases symbol with
  | terminal letter =>
      refine ⟨.leaf letter token, .leaf letter token, rfl, ?_⟩
      intro terminal isLeaf
      rw [List.mem_singleton.mp isLeaf]
      exact isPlain
  | nonterminal letter => exact below letter rfl

theorem Rules.Fruitful.exists_samples (fruitful : rules.Fruitful plain height) (token : κ)
    (letter : ν) :
    ∃ tree : Derivation τ ν κ, rules.Samples plain (.nonterminal letter) tree := by
  induction isHeight : height letter using Nat.strongRecOn generalizing letter with
  | ind bound induction =>
      rcases fruitful letter with ⟨rule, known, isHead, lower⟩
      have each : ∀ symbol ∈ rule.body,
          ∃ tree : Derivation τ ν κ, rules.Samples plain symbol tree := by
        intro symbol isPart
        apply exists_samples_symbol token (lower symbol isPart).1
        intro other isOther
        exact induction _ (isHeight ▸ (lower symbol isPart).2 other isOther) other rfl
      rcases exists_samples_row each with ⟨trees, isBody, follow, arePlain⟩
      exact ⟨.node rule trees, .node rule trees known isBody follow, congrArg _ isHead, arePlain⟩

/-- A row of plain symbols, given by their numbers, has derivations with plain leaves. -/
theorem Rules.Fruitful.exists_row (fruitful : rules.Fruitful plain height) (token : κ)
    {row : List (Symbol τ ν)} (arePlain : (row.map Symbol.numbered).all (Symbol.isPlain plain)) :
    ∃ trees : List (Derivation τ ν κ), Derivation.row trees = row.map Symbol.numbered ∧
      (∀ tree ∈ trees, tree.Follows rules) ∧ AllPlain plain (Derivation.leavesOfAll trees) := by
  rw [List.all_map, List.all_eq_true] at arePlain
  have each : ∀ symbol ∈ row, ∃ tree : Derivation τ ν κ, rules.Samples plain symbol tree :=
    fun symbol isPart => exists_samples_symbol token (arePlain symbol isPart)
      fun letter _ => fruitful.exists_samples token letter
  rcases exists_samples_row each with ⟨trees, isRow, follow, leavesPlain⟩
  refine ⟨trees, ?_, follow, leavesPlain⟩
  rw [← isRow, Derivation.row, List.map_map]
  rfl

end Fruitful

/-! ## Chains of rules -/

/-- The nonterminal that comes next in a rule, if the rest of the rule is plain. -/
def Item.call? (plain : Nat → Bool) (item : Item) : Option Nat :=
  match item.rest with
  | .nonterminal letter :: rest =>
      match rest.all (Symbol.isPlain plain) with
      | true => some letter
      | false => none
  | _ => none

/-- The head of a rule that begins; `none` for a rule under way and for the goal. -/
def Item.head? (rules : Rules Nat Nat) (item : Item) : Option Nat :=
  match item.done, item.rule with
  | 0, index + 1 => rules.list[index]?.map Rule.head
  | _, _ => none

/-- The nonterminals that come next in a state, each with the head of the rule that it is in. -/
def State.links (rules : Rules Nat Nat) (plain : Nat → Bool) (state : State) :
    List (Option Nat × Nat) :=
  state.items.filterMap fun item =>
    (item.call? plain).map fun letter => (item.head? rules, letter)

/-- What a chain of links leads to. -/
inductive Linked (links : List (Option Nat × Nat)) : Option Nat → Prop
  | start : Linked links none
  | next {origin : Option Nat} {letter : Nat} (before : Linked links origin)
      (isLink : (origin, letter) ∈ links) : Linked links (some letter)

/-- Follow a link whose origin has been reached. -/
def follow (set : Lookaheads) (link : Option Nat × Nat) : Lookaheads :=
  match set.contains link.1 with
  | true => set.union (.singleton (some link.2))
  | false => set

/-- Follow the links once, in their order. A state lists its items as it comes upon them, so that
once is enough. -/
def spread (links : List (Option Nat × Nat)) : Lookaheads :=
  links.foldl follow (.singleton none)

theorem linked_of_follow {links : List (Option Nat × Nat)} {set : Lookaheads}
    (known : ∀ origin, set.contains origin = true → Linked links origin)
    {link : Option Nat × Nat} (isLink : link ∈ links) {origin : Option Nat}
    (reached : (follow set link).contains origin = true) : Linked links origin := by
  rw [follow] at reached
  split at reached
  · rename_i isKnown
    rw [Lookaheads.contains_union, Bool.or_eq_true, Lookaheads.contains_singleton,
      decide_eq_true_eq] at reached
    rcases reached with isOld | rfl
    · exact known origin isOld
    · exact .next (known link.1 isKnown) isLink
  · exact known origin reached

theorem linked_of_spread {links : List (Option Nat × Nat)} {origin : Option Nat}
    (reached : (spread links).contains origin = true) : Linked links origin := by
  refine List.foldlRecOn links follow (motive := fun set =>
    ∀ origin, set.contains origin = true → Linked links origin) ?_ ?_ origin reached
  · intro origin isStart
    rw [Lookaheads.contains_singleton, decide_eq_true_eq] at isStart
    exact isStart ▸ .start
  · intro set known link isLink origin reached
    exact linked_of_follow known isLink reached

theorem rest_of_call? {item : Item} {letter : Nat} (calls : item.call? plain = some letter) :
    ∃ rest, item.rest = .nonterminal letter :: rest ∧
      rest.all (Symbol.isPlain plain) = true := by
  rw [Item.call?] at calls
  split at calls
  · rename_i rest isRest
    split at calls
    · rename_i arePlain
      cases calls
      exact ⟨rest, isRest, arePlain⟩
    · cases calls
  · cases calls

theorem exists_item_of_link {rules : Rules Nat Nat} {state : State} {origin : Option Nat}
    {letter : Nat} (isLink : (origin, letter) ∈ state.links rules plain) :
    ∃ item ∈ state.items, item.head? rules = origin ∧ ∃ rest,
      item.rest = .nonterminal letter :: rest ∧ rest.all (Symbol.isPlain plain) = true := by
  rcases List.mem_filterMap.mp isLink with ⟨item, isItem, gives⟩
  rcases Option.map_eq_some_iff.mp gives with ⟨found, calls, isPair⟩
  cases isPair
  exact ⟨item, isItem, rfl, rest_of_call? calls⟩

/-! ## Viable automata -/

/-- What is needed to complete what stands on a stack. -/
structure Parser.Viable [Alphabet τ] [Alphabet ν] (parser : Parser τ ν) (plain : Nat → Bool) :
    Prop where
  -- A nonterminal that leads on has a place in the state.
  linked : ∀ {number letter target : Nat},
    (parser.state number).target? (.nonterminal letter) = some target →
    Linked ((parser.state number).links parser.rules.numbered plain) (some letter)
  -- Behind a symbol a rule is under way that can be finished.
  ongoing : ∀ {number target : Nat} {symbol : Symbol Nat Nat},
    (parser.state number).target? symbol = some target →
    ∃ item ∈ (parser.state target).items, item.done ≠ 0 ∧
      item.rest.all (Symbol.isPlain plain) = true

def State.isViable (rules : Rules Nat Nat) (plain : Nat → Bool) (states : Table State)
    (state : State) : Bool :=
  let reached := spread (state.links rules plain)
  state.edges.all fun edge =>
    (match edge.1 with
      | .terminal _ => true
      | .nonterminal letter => reached.contains (some letter)) &&
      match states.get? edge.2 with
      | none => false
      | some next => next.items.any fun item =>
          !Nat.beq item.done 0 && item.rest.all (Symbol.isPlain plain)

namespace Parser

def isViable [Alphabet τ] [Alphabet ν] (parser : Parser τ ν) (plain : Nat → Bool) : Bool :=
  parser.automaton.states.all
    (State.isViable parser.rules.numbered plain parser.automaton.states)

section Viable

variable [Alphabet τ] [Alphabet ν] {parser : Parser τ ν} {height : ν → Nat}
  {stack : Stack τ ν κ} {item : Item} {index : Nat} {rule : Rule τ ν}

theorem viable_of_isViable (passes : parser.isViable plain = true) : parser.Viable plain := by
  have states (number : Nat) : (parser.state number).isViable parser.rules.numbered plain
      parser.automaton.states = true := state_passes rfl passes number
  simp only [State.isViable, List.all_eq_true, Bool.and_eq_true] at states
  refine ⟨?linked, ?ongoing⟩
  case linked =>
    intro number letter target leads
    exact linked_of_spread (states number _ (State.target?_eq_some leads)).1
  case ongoing =>
    intro number target symbol leads
    have test := (states number _ (State.target?_eq_some leads)).2
    split at test
    · cases test
    · rename_i next isNext
      have isState : parser.state target = next := by simp only [state, isNext, Option.getD_some]
      rcases List.any_eq_true.mp test with ⟨item, isItem, isOngoing⟩
      simp only [Bool.and_eq_true, Bool.not_eq_true', Table.beq_eq_decide,
        decide_eq_false_iff_not] at isOngoing
      exact ⟨item, isState ▸ isItem, isOngoing⟩

/-! ## Taking down a stack -/

/-- Terminals that plain ones complete to the leaves of a derivation of the start symbol. -/
def Completes (parser : Parser τ ν) (plain : Nat → Bool) (terminals : List (τ × κ)) : Prop :=
  ∃ (whole : Derivation τ ν κ) (rest : List (τ × κ)), whole.Follows parser.rules ∧
    whole.symbol = .nonterminal parser.rules.start ∧ AllPlain plain rest ∧
    whole.leaves = terminals ++ rest

omit [Alphabet ν] in
theorem Completes.of_append {terminals more : List (τ × κ)}
    (completes : parser.Completes plain (terminals ++ more)) (arePlain : AllPlain plain more) :
    parser.Completes plain terminals := by
  rcases completes with ⟨whole, rest, follows, isStart, restPlain, leaves⟩
  exact ⟨whole, more ++ rest, follows, isStart, arePlain.append restPlain,
    by rw [leaves, List.append_assoc]⟩

/-- The goal begins with the start symbol. -/
theorem Grounded.eq_start_of_goal (grounded : parser.Grounded) {number head : Nat}
    (isItem : item ∈ (parser.state number).items) (isGoal : item.rule = 0)
    {rest : List (Symbol Nat Nat)} (isRest : item.rest = .nonterminal head :: rest) :
    item.done = 0 ∧ head = Alphabet.number parser.rules.start := by
  rcases grounded.genuine item isItem with ⟨body, isBody, -, same⟩
  rw [isGoal] at isBody
  cases isBody
  rw [isRest] at same
  cases isDone : item.done with
  | zero =>
      rw [isDone] at same
      cases same
      exact ⟨rfl, rfl⟩
  | succ done =>
      rw [isDone, List.drop_succ_cons, List.drop_nil] at same
      cases same

/-- The goal under way is over, and the start symbol is all that stands on the stack. -/
theorem Path.exists_start_of_goal {stack : Stack τ ν κ} (path : parser.Path stack)
    (grounded : parser.Grounded) (isItem : item ∈ (parser.state (Stack.state stack)).items)
    (isGoal : item.rule = 0) (isUnderWay : item.done ≠ 0) :
    ∃ frame, stack = [frame] ∧ frame.tree.symbol = .nonterminal parser.rules.start := by
  rcases grounded.genuine item isItem with ⟨body, isBody, bound, -⟩
  have spelled := path.spells grounded isItem isBody
  rw [isGoal] at isBody
  cases isBody
  have isDone : item.done = 1 := by
    simp only [List.length_singleton] at bound
    omega
  rw [isDone] at spelled
  rcases spelled with ⟨isRow, origin, isOrigin, sameRule, isFresh⟩
  have isBottom := (path.drop 1).eq_nil_of_goal grounded isOrigin (sameRule.trans isGoal) isFresh
  cases stack with
  | nil => cases isRow
  | cons frame below =>
      cases isBottom
      exact ⟨frame, rfl, Symbol.numbered_injective (List.singleton_inj.mp isRow)⟩

/-- What is still to come of a rule of the grammar. -/
theorem Grounded.exists_rule (grounded : parser.Grounded) {number : Nat}
    (isItem : item ∈ (parser.state number).items) (isRule : item.rule = index + 1) :
    ∃ rule, parser.rules.list[index]? = some rule ∧
      item.rest = (rule.body.drop item.done).map Symbol.numbered := by
  rcases grounded.genuine item isItem with ⟨body, isBody, -, isRest⟩
  rw [isRule] at isBody
  rcases Option.map_eq_some_iff.mp isBody with ⟨numbered, found, rfl⟩
  simp only [Rules.numbered, List.getElem?_map, Option.map_eq_some_iff] at found
  rcases found with ⟨rule, found, rfl⟩
  exact ⟨rule, found, by rw [isRest, List.map_drop]⟩

omit [Alphabet τ] [Alphabet ν] in
theorem follows_drop (follows : stack.Follows parser.rules) (count : Nat) :
    Stack.Follows parser.rules (stack.drop count) :=
  fun frame isBelow => follows frame (List.mem_of_mem_drop isBelow)

omit [Alphabet τ] [Alphabet ν] in
theorem follow_trees (follows : stack.Follows parser.rules) (count : Nat) :
    ∀ tree ∈ Stack.trees (stack.take count), tree.Follows parser.rules := by
  intro tree isTree
  rcases List.mem_map.mp (List.mem_reverse.mp isTree) with ⟨frame, inFront, rfl⟩
  exact follows frame (List.mem_of_mem_take inFront)

/-- A rule under way is finished by trees for what is still to come. -/
theorem Path.follows_node (path : parser.Path stack) (grounded : parser.Grounded)
    (follows : stack.Follows parser.rules)
    (isItem : item ∈ (parser.state (Stack.state stack)).items) (isRule : item.rule = index + 1)
    (found : parser.rules.list[index]? = some rule) {trees : List (Derivation τ ν κ)}
    (follow : ∀ tree ∈ trees, tree.Follows parser.rules)
    (isRest : Derivation.row trees = item.rest) :
    (Derivation.node rule (Stack.trees (stack.take item.done) ++ trees)).Follows parser.rules := by
  rcases grounded.genuine item isItem with ⟨body, isBody, -, rest⟩
  have spelled := (path.spells grounded isItem isBody).1
  rw [isRule, body?_numbered found] at isBody
  cases isBody
  refine .node rule _ (List.mem_of_getElem? found) ?_
    (List.forall_mem_append.mpr ⟨follow_trees follows item.done, follow⟩)
  have row : Derivation.row (Stack.trees (stack.take item.done) ++ trees) =
      rule.body.map Symbol.numbered := by
    rw [Derivation.row, List.map_append, ← Derivation.row, ← Derivation.row, spelled, isRest, rest,
      List.take_append_drop]
  rw [Derivation.row, ← Function.comp_def Symbol.numbered, ← List.map_map] at row
  exact (List.map_inj_right fun _ _ => Symbol.numbered_injective).mp row

omit [Alphabet τ] [Alphabet ν] in
theorem leaves_node (stack : Stack τ ν κ) (count : Nat) (rule : Rule τ ν)
    (trees : List (Derivation τ ν κ)) :
    Stack.leaves (stack.drop count) ++
        (Derivation.node rule (Stack.trees (stack.take count) ++ trees)).leaves =
      stack.leaves ++ Derivation.leavesOfAll trees := by
  rw [Derivation.leaves, Derivation.leavesOfAll_append, ← List.append_assoc]
  exact congrArg (· ++ _) (Stack.leaves_take_drop count stack)

/-- The head of a rule under way has a place in the state below the trees of the rule. -/
theorem Path.linked_origin (path : parser.Path stack) (grounded : parser.Grounded)
    (viable : parser.Viable plain) (isItem : item ∈ (parser.state (Stack.state stack)).items)
    (isRule : item.rule = index + 1) (found : parser.rules.list[index]? = some rule) :
    Linked ((parser.state (Stack.state (stack.drop item.done))).links parser.rules.numbered plain)
      (some (Alphabet.number rule.head)) := by
  rcases grounded.genuine item isItem with ⟨body, isBody, -, -⟩
  rcases (path.spells grounded isItem isBody).2 with ⟨origin, isOrigin, sameRule, isFresh⟩
  rcases grounded.leads origin isOrigin isFresh (sameRule.trans isRule) found with ⟨target, leads⟩
  exact viable.linked leads

/-- A rule under way has trees on the stack. -/
theorem Grounded.length_drop_lt (grounded : parser.Grounded)
    (isItem : item ∈ (parser.state (Stack.state stack)).items) (isUnderWay : item.done ≠ 0) :
    (stack.drop item.done).length < stack.length := by
  have isFull : stack ≠ [] := by
    rintro rfl
    exact isUnderWay (grounded.fresh item isItem)
  have positive := List.length_pos_iff.mpr isFull
  rw [List.length_drop]
  omega

/-- A tree that has a place on top of a stack is the start symbol, or a part of a rule that has a
place below. -/
theorem Path.exists_node (grounded : parser.Grounded)
    (fruitful : parser.rules.Fruitful plain height) (token : κ) (path : parser.Path stack)
    (follows : stack.Follows parser.rules)
    (isItem : item ∈ (parser.state (Stack.state stack)).items) {head : Nat}
    {rest : List (Symbol Nat Nat)} (isRest : item.rest = .nonterminal head :: rest)
    (arePlain : rest.all (Symbol.isPlain plain) = true) {tree : Derivation τ ν κ}
    (treeFollows : tree.Follows parser.rules)
    (isHead : tree.symbol.numbered = .nonterminal head) (isRule : item.rule = index + 1)
    (found : parser.rules.list[index]? = some rule) :
    ∃ (node : Derivation τ ν κ) (more : List (τ × κ)), node.Follows parser.rules ∧
      node.symbol = .nonterminal rule.head ∧ AllPlain plain more ∧
      Stack.leaves (stack.drop item.done) ++ node.leaves =
        (stack.leaves ++ tree.leaves) ++ more := by
  rcases grounded.exists_rule isItem isRule with ⟨other, isOther, isRow⟩
  rw [found] at isOther
  cases isOther
  have isBehind : rest = (rule.body.drop (item.done + 1)).map Symbol.numbered := by
    rw [← List.drop_drop, List.map_drop, ← isRow, isRest]
    rfl
  rw [isBehind] at arePlain
  rcases fruitful.exists_row token arePlain with ⟨trees, isTrees, follow, leavesPlain⟩
  have children : Derivation.row (tree :: trees) = item.rest := by
    rw [isRest, isBehind, ← isTrees, ← isHead]
    rfl
  refine ⟨_, _, path.follows_node grounded follows isItem isRule found
    (List.forall_mem_cons.mpr ⟨treeFollows, follow⟩) children, rfl, leavesPlain, ?_⟩
  rw [leaves_node, Derivation.leavesOfAll, List.append_assoc]

/-- A stack with a tree that has a place on it can be completed. -/
theorem Path.completes_tree (grounded : parser.Grounded) (viable : parser.Viable plain)
    (fruitful : parser.rules.Fruitful plain height) (token : κ) {stack : Stack τ ν κ}
    (path : parser.Path stack) (follows : stack.Follows parser.rules) {head : Nat}
    (linked : Linked ((parser.state (Stack.state stack)).links parser.rules.numbered plain)
      (some head)) {tree : Derivation τ ν κ} (treeFollows : tree.Follows parser.rules)
    (isHead : tree.symbol.numbered = .nonterminal head) :
    parser.Completes plain (stack.leaves ++ tree.leaves) := by
  -- A rule under way is taken off the stack with its trees; a rule that begins in the state leaves
  -- the stack as it is, but comes before in the chain.
  induction size : stack.length using Nat.strongRecOn generalizing stack head tree with
  | ind size shorter =>
      generalize isOrigin : some head = origin at linked
      induction linked generalizing head tree with
      | start => cases isOrigin
      | @next origin letter before isLink induction =>
          cases isOrigin
          rcases exists_item_of_link isLink with ⟨item, isItem, isFirst, rest, isRest, arePlain⟩
          cases isRule : item.rule with
          | zero =>
              rcases grounded.eq_start_of_goal isItem isRule isRest with ⟨isFresh, rfl⟩
              cases path.eq_nil_of_goal grounded isItem isRule isFresh
              exact ⟨tree, [], treeFollows, Symbol.numbered_injective isHead, allPlain_nil,
                (List.append_nil _).symm⟩
          | succ index =>
              rcases grounded.exists_rule isItem isRule with ⟨rule, found, -⟩
              rcases path.exists_node grounded fruitful token follows isItem isRest arePlain
                treeFollows isHead isRule found with
                ⟨node, more, nodeFollows, isNode, areMore, same⟩
              have isHeadToo : node.symbol.numbered = .nonterminal (Alphabet.number rule.head) := by
                rw [isNode]
                rfl
              have completes : parser.Completes plain
                  (Stack.leaves (stack.drop item.done) ++ node.leaves) := by
                cases isDone : item.done with
                | zero =>
                    have isOther : some (Alphabet.number rule.head) = origin := by
                      rw [← isFirst, Item.head?, isDone, isRule]
                      simp only [Rules.numbered, List.getElem?_map, found, Option.map_some]
                    exact induction nodeFollows isHeadToo isOther
                | succ done =>
                    have isUnderWay : item.done ≠ 0 := isDone ▸ Nat.succ_ne_zero done
                    have isShorter := grounded.length_drop_lt isItem isUnderWay
                    exact shorter _ (isDone ▸ size ▸ isShorter) (path.drop _)
                      (follows_drop follows _)
                      (isDone ▸ path.linked_origin grounded viable isItem isRule found)
                      nodeFollows isHeadToo rfl
              rw [same] at completes
              exact completes.of_append areMore

/-- Whatever stands on a stack can be completed. -/
theorem Path.completes_stack (grounded : parser.Grounded) (viable : parser.Viable plain)
    (fruitful : parser.rules.Fruitful plain height) (token : κ) (path : parser.Path stack)
    (follows : stack.Follows parser.rules) : parser.Completes plain stack.leaves := by
  cases stack with
  | nil =>
      rcases fruitful.exists_samples token parser.rules.start with
        ⟨tree, treeFollows, isStart, arePlain⟩
      exact ⟨tree, tree.leaves, treeFollows, isStart, arePlain, rfl⟩
  | cons frame below =>
      have whole := path
      cases whole with
      | cons onPath leads =>
          rcases viable.ongoing leads with ⟨item, isItem, isUnderWay, arePlain⟩
          cases isRule : item.rule with
          | zero =>
              rcases path.exists_start_of_goal grounded isItem isRule isUnderWay with
                ⟨_, isStack, isStart⟩
              cases isStack
              exact ⟨frame.tree, [], follows frame List.mem_cons_self, isStart, allPlain_nil,
                by simp⟩
          | succ index =>
              rcases grounded.exists_rule isItem isRule with ⟨rule, found, isRow⟩
              rw [isRow] at arePlain
              rcases fruitful.exists_row token arePlain with ⟨trees, isTrees, follow, leavesPlain⟩
              have node := path.follows_node grounded follows isItem isRule found follow
                (isTrees.trans isRow.symm)
              have linked := path.linked_origin grounded viable isItem isRule found
              have completes := Path.completes_tree grounded viable fruitful token
                (path.drop item.done) (follows_drop follows _) linked node rfl
              rw [leaves_node] at completes
              exact completes.of_append leavesPlain

end Viable

/-! ## Sentences -/

section Sentences

/-- The leaves of a derivation can be replaced, letter by letter. -/
theorem exists_follows_row {rules : Rules τ ν} {trees : List (Derivation τ ν κ)}
    (each : ∀ tree ∈ trees, ∀ others : List (τ × μ),
      others.map Prod.fst = tree.leaves.map Prod.fst → ∃ other : Derivation τ ν μ,
        other.Follows rules ∧ other.symbol = tree.symbol ∧ other.leaves = others)
    {others : List (τ × μ)}
    (same : others.map Prod.fst = (Derivation.leavesOfAll trees).map Prod.fst) :
    ∃ found : List (Derivation τ ν μ), (∀ tree ∈ found, tree.Follows rules) ∧
      found.map Derivation.symbol = trees.map Derivation.symbol ∧
      Derivation.leavesOfAll found = others := by
  induction trees generalizing others with
  | nil => exact ⟨[], by simp, rfl, (List.map_eq_nil_iff.mp same).symm⟩
  | cons tree trees induction =>
      rcases List.forall_mem_cons.mp each with ⟨first, further⟩
      rw [Derivation.leavesOfAll, List.map_append] at same
      rcases List.map_eq_append_iff.mp same with ⟨front, back, rfl, isFront, isBack⟩
      rcases first front isFront with ⟨other, follows, isSymbol, leaves⟩
      rcases induction further isBack with ⟨found, follow, areSymbols, allLeaves⟩
      exact ⟨other :: found, List.forall_mem_cons.mpr ⟨follows, follow⟩,
        by rw [List.map_cons, List.map_cons, isSymbol, areSymbols],
        by rw [Derivation.leavesOfAll, leaves, allLeaves]⟩

theorem exists_follows {rules : Rules τ ν} {tree : Derivation τ ν κ}
    (follows : tree.Follows rules) :
    ∀ others : List (τ × μ), others.map Prod.fst = tree.leaves.map Prod.fst →
      ∃ other : Derivation τ ν μ,
        other.Follows rules ∧ other.symbol = tree.symbol ∧ other.leaves = others := by
  induction follows with
  | leaf terminal token =>
      intro others same
      rcases List.map_eq_singleton_iff.mp same with ⟨⟨letter, found⟩, rfl, rfl⟩
      exact ⟨.leaf letter found, .leaf letter found, rfl, rfl⟩
  | node rule children known body _ induction =>
      intro others same
      rcases exists_follows_row induction same with ⟨found, follow, areSymbols, leaves⟩
      exact ⟨.node rule found, .node rule found known (areSymbols.trans body) follow, rfl, leaves⟩

variable [Alphabet τ] [Alphabet ν] [DecidableEq τ] [DecidableEq ν] {parser : Parser τ ν}
  {rank : ν → Nat} {terminals : List (τ × κ)}

/-- What plain terminals complete is the front of a sentence, and which tokens there are does not
matter. -/
theorem Completes.exists_letters (completes : parser.Completes plain terminals)
    (valid : parser.Valid) (graded : parser.rules.Graded rank) :
    ∃ letters : List τ, (∀ letter ∈ letters, plain (Alphabet.number letter) = true) ∧
      ∀ others : List (τ × κ), others.map Prod.fst = terminals.map Prod.fst ++ letters →
        ∃ tree, parser.run [] others = .ok tree := by
  rcases completes with ⟨whole, rest, follows, isStart, arePlain, leaves⟩
  refine ⟨rest.map Prod.fst, List.forall_mem_map.mpr arePlain, ?_⟩
  intro others same
  rw [← List.map_append, ← leaves] at same
  rcases exists_follows follows others same with ⟨other, otherFollows, isSymbol, isLeaves⟩
  refine ⟨other, ?_⟩
  rw [← isLeaves]
  exact run_leaves valid graded otherFollows (isSymbol.trans isStart)

end Sentences

end Parser

end ShaderReflection.Grammar

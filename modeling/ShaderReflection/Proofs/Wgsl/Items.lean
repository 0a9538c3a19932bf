import ShaderReflection.Proofs.Wgsl.Table

/-!
# Modules one after the other

A module is a row of items, and the machine takes each item as if it were the first: the terminals
of two modules in a row are those of a module, and the states behind them are the states that the
machine has behind them in each module alone (`trace_append`). At the end of a module the next
lexeme is read as at the beginning (`known_of_run`).
-/

namespace ShaderReflection.Wgsl

open ShaderReflection.Grammar

variable {κ : Type}

/-! ## Items -/

/-- Derivations of items. -/
def AreItems (items : List (Derivation Terminal Nonterminal κ)) : Prop :=
  ∀ item ∈ items, item.Follows rules ∧ item.symbol = .nonterminal .globalItem

/-- The terminals of items in a row, and the states behind them. -/
structure RowOf (tree : Derivation Terminal Nonterminal κ)
    (items : List (Derivation Terminal Nonterminal κ)) : Prop where
  leaves : tree.leaves = Derivation.leavesOfAll items
  states : parser.behind 0 tree = items.flatMap (parser.behind 0)

theorem leavesOfAll_append (left right : List (Derivation Terminal Nonterminal κ)) :
    Derivation.leavesOfAll (left ++ right) =
      Derivation.leavesOfAll left ++ Derivation.leavesOfAll right := by
  induction left with
  | nil => rfl
  | cons tree left induction =>
      rw [List.cons_append, Derivation.leavesOfAll, induction, Derivation.leavesOfAll,
        List.append_assoc]

/-- No rule but those of modules and rows of items begins with an item. -/
theorem rules_begin_inside : ∀ rule ∈ rules.list, rule.head ∉ [.translationUnit, .globalItems] →
    ∀ symbol ∈ rule.body.head?, symbol ∉ outerSymbols := by
  decide +kernel

/-- Behind a row of items the machine passes through the same states as at the beginning. -/
theorem behind_itemState {tree : Derivation Terminal Nonterminal κ} (follows : tree.Follows rules)
    (isInside : tree.symbol ∉ [.nonterminal .translationUnit, .nonterminal .globalItems]) :
    parser.behind itemState tree = parser.behind 0 tree := by
  have rows : ∀ symbol ∈ [.nonterminal .translationUnit, .nonterminal .globalItems],
      symbol ∈ outerSymbols := by
    decide
  induction follows with
  | leaf terminal token =>
      rw [Parser.behind, Parser.behind, after_itemState (by simp [outerSymbols])]
  | node rule children known body below induction =>
      have notOuter : rule.head ∉ [.translationUnit, .globalItems] := by
        simpa [Derivation.symbol] using isInside
      cases children with
      | nil => rw [Parser.behind, Parser.behind, Parser.behindAll, Parser.behindAll]
      | cons first rest =>
          have isFirst : first.symbol ∈ rule.body.head? := by
            rw [← body]
            rfl
          have inside := rules_begin_inside rule known notOuter _ isFirst
          have sameFirst := induction first List.mem_cons_self
            fun isOuter => inside (rows _ isOuter)
          rw [Parser.behind, Parser.behind, Parser.behindAll, Parser.behindAll, sameFirst,
            after_itemState inside]

/-! ## Rows of items -/

theorem rules_of_globalItems : ∀ rule ∈ rules.list, rule.head = .globalItems →
    rule.body = [.nonterminal .globalItem] ∨
      rule.body = [.nonterminal .globalItems, .nonterminal .globalItem] := by
  decide +kernel

theorem rules_of_translationUnit : ∀ rule ∈ rules.list, rule.head = .translationUnit →
    rule.body = [] ∨ rule.body = [.nonterminal .globalItems] := by
  decide +kernel

/-- One more item behind a row of items. -/
theorem RowOf.snoc {first item : Derivation Terminal Nonterminal κ}
    {items : List (Derivation Terminal Nonterminal κ)} (row : RowOf first items)
    (isRow : first.symbol = .nonterminal .globalItems) (follows : item.Follows rules)
    (isItem : item.symbol = .nonterminal .globalItem) (rule : Rule Terminal Nonterminal) :
    RowOf (.node rule [first, item]) (items ++ [item]) where
  leaves := by
    simp only [Derivation.leaves, leavesOfAll_append, Derivation.leavesOfAll, row.leaves]
  states := by
    have isState : parser.after 0 first.symbol = itemState := by rw [isRow, itemState]
    simp only [Parser.behind, Parser.behindAll, isState, List.append_nil, List.flatMap_append,
      List.flatMap_singleton, row.states, behind_itemState follows (by simp [isItem])]

theorem RowOf.self (item : Derivation Terminal Nonterminal κ) : RowOf item [item] where
  leaves := by rw [Derivation.leavesOfAll, Derivation.leavesOfAll, List.append_nil]
  states := by rw [List.flatMap_singleton]

theorem RowOf.under {row : Derivation Terminal Nonterminal κ}
    {items : List (Derivation Terminal Nonterminal κ)} (rowOf : RowOf row items)
    (rule : Rule Terminal Nonterminal) : RowOf (.node rule [row]) items where
  leaves := by
    rw [Derivation.leaves, Derivation.leavesOfAll, Derivation.leavesOfAll, List.append_nil,
      rowOf.leaves]
  states := by
    rw [Parser.behind, Parser.behindAll, Parser.behindAll, List.append_nil, rowOf.states]

theorem RowOf.none (rule : Rule Terminal Nonterminal) :
    RowOf (.node rule ([] : List (Derivation Terminal Nonterminal κ))) [] where
  leaves := rfl
  states := by
    rw [Parser.behind, Parser.behindAll, List.flatMap_nil]

theorem exists_items_of_row {tree : Derivation Terminal Nonterminal κ}
    (follows : tree.Follows rules) (isRow : tree.symbol = .nonterminal .globalItems) :
    ∃ items, AreItems items ∧ RowOf tree items := by
  induction follows with
  | leaf terminal token => cases isRow
  | node rule children known body below induction =>
      rcases rules_of_globalItems rule known (Grammar.Symbol.nonterminal.inj isRow) with
        isBody | isBody
      · rw [isBody] at body
        rcases List.map_eq_singleton_iff.mp body with ⟨item, rfl, isItem⟩
        refine ⟨[item], ?_, (RowOf.self item).under rule⟩
        exact List.forall_mem_singleton.mpr ⟨below item List.mem_cons_self, isItem⟩
      · rw [isBody] at body
        rcases List.map_eq_cons_iff.mp body with ⟨first, others, rfl, isFirst, isOthers⟩
        rcases List.map_eq_singleton_iff.mp isOthers with ⟨item, rfl, isItem⟩
        rcases induction first List.mem_cons_self isFirst with ⟨items, areItems, row⟩
        have follows := below item (List.mem_cons_of_mem _ List.mem_cons_self)
        refine ⟨items ++ [item], ?_, row.snoc isFirst follows isItem rule⟩
        exact List.forall_mem_append.mpr
          ⟨areItems, List.forall_mem_singleton.mpr ⟨follows, isItem⟩⟩

theorem exists_row_of_items {items : List (Derivation Terminal Nonterminal κ)}
    (areItems : AreItems items) (isFull : items ≠ []) :
    ∃ tree : Derivation Terminal Nonterminal κ, tree.Follows rules ∧
      tree.symbol = .nonterminal .globalItems ∧ RowOf tree items := by
  induction items using List.reverseRecOn with
  | nil => exact absurd rfl isFull
  | append_singleton items item induction =>
      rcases List.forall_mem_append.mp areItems with ⟨others, isLast⟩
      rcases List.forall_mem_singleton.mp isLast with ⟨follows, isItem⟩
      cases items with
      | nil =>
          let rule : Rule Terminal Nonterminal := ⟨.globalItems, [.nonterminal .globalItem]⟩
          have known : rule ∈ rules.list := by decide +kernel
          refine ⟨.node rule [item], .node rule [item] known ?_ ?_, rfl,
            (RowOf.self item).under rule⟩
          · rw [List.map_singleton, isItem]
          · exact List.forall_mem_singleton.mpr follows
      | cons first rest =>
          let rule : Rule Terminal Nonterminal :=
            ⟨.globalItems, [.nonterminal .globalItems, .nonterminal .globalItem]⟩
          have known : rule ∈ rules.list := by decide +kernel
          rcases induction others (List.cons_ne_nil _ _) with ⟨tree, treeFollows, isRow, row⟩
          refine ⟨.node rule [tree, item], .node rule [tree, item] known ?_ ?_, rfl,
            row.snoc isRow follows isItem rule⟩
          · rw [List.map_cons, List.map_singleton, isItem, isRow]
          · exact List.forall_mem_cons.mpr ⟨treeFollows, List.forall_mem_singleton.mpr follows⟩

/-! ## Modules -/

theorem exists_items {tree : Derivation Terminal Nonterminal κ} (follows : tree.Follows rules)
    (isStart : tree.symbol = .nonterminal rules.start) :
    ∃ items, AreItems items ∧ RowOf tree items := by
  cases follows with
  | leaf terminal token => cases isStart
  | node rule children known body below =>
      rcases rules_of_translationUnit rule known (Grammar.Symbol.nonterminal.inj isStart) with
        isBody | isBody
      · rw [isBody] at body
        rw [List.map_eq_nil_iff.mp body]
        exact ⟨[], by simp [AreItems], .none rule⟩
      · rw [isBody] at body
        rcases List.map_eq_singleton_iff.mp body with ⟨row, rfl, isRow⟩
        rcases exists_items_of_row (below row List.mem_cons_self) isRow with
          ⟨items, areItems, rowOf⟩
        exact ⟨items, areItems, rowOf.under rule⟩

theorem exists_module {items : List (Derivation Terminal Nonterminal κ)}
    (areItems : AreItems items) :
    ∃ tree : Derivation Terminal Nonterminal κ, tree.Follows rules ∧
      tree.symbol = .nonterminal rules.start ∧ RowOf tree items := by
  cases items with
  | nil =>
      let rule : Rule Terminal Nonterminal := ⟨.translationUnit, []⟩
      have known : rule ∈ rules.list := by decide +kernel
      exact ⟨.node rule [], .node rule [] known rfl (by simp), rfl, .none rule⟩
  | cons first rest =>
      let rule : Rule Terminal Nonterminal := ⟨.translationUnit, [.nonterminal .globalItems]⟩
      have known : rule ∈ rules.list := by decide +kernel
      rcases exists_row_of_items areItems (List.cons_ne_nil _ _) with ⟨row, follows, isRow, rowOf⟩
      refine ⟨.node rule [row], .node rule [row] known ?_ ?_, rfl, rowOf.under rule⟩
      · rw [List.map_singleton, isRow]
      · exact List.forall_mem_singleton.mpr follows

/-! ## Runs -/

variable {left right : List (Terminal × κ)} {first second : Derivation Terminal Nonterminal κ}

/-- What the machine accepts follows the grammar, and the machine passes through its states. -/
theorem follows_of_run (built : parser.run [] left = .ok first) :
    first.Follows rules ∧ first.symbol = .nonterminal rules.start ∧ first.leaves = left ∧
      parser.trace [] left = parser.behind 0 first := by
  have sound := Parser.follows_run built (by simp [Stack.Follows])
  rw [Stack.leaves_nil, List.nil_append] at sound
  rcases sound with ⟨follows, isStart, rfl⟩
  exact ⟨follows, isStart, rfl, Parser.trace_leaves parser_valid rules_graded follows isStart⟩

/-- Two modules in a row are a module, and the machine takes each as it does alone. -/
theorem trace_append (leftBuilt : parser.run [] left = .ok first)
    (rightBuilt : parser.run [] right = .ok second) :
    parser.trace [] (left ++ right) = parser.trace [] left ++ parser.trace [] right := by
  rcases follows_of_run leftBuilt with ⟨leftFollows, leftStarts, rfl, leftTrace⟩
  rcases follows_of_run rightBuilt with ⟨rightFollows, rightStarts, rfl, rightTrace⟩
  rcases exists_items leftFollows leftStarts with ⟨leftItems, areLeft, leftRow⟩
  rcases exists_items rightFollows rightStarts with ⟨rightItems, areRight, rightRow⟩
  rcases exists_module (List.forall_mem_append.mpr ⟨areLeft, areRight⟩) with
    ⟨both, follows, isStart, row⟩
  have trace := Parser.trace_leaves parser_valid rules_graded follows isStart
  rw [row.leaves, row.states, leavesOfAll_append, List.flatMap_append, ← leftRow.leaves,
    ← rightRow.leaves, ← leftRow.states, ← rightRow.states] at trace
  rw [trace, leftTrace, rightTrace]

/-- At the end of a module the next lexeme is read as at the beginning. -/
theorem known_of_run (built : parser.run [] left = .ok first) :
    ∃ number, (0 :: parser.trace [] left).getLast? = some number ∧
      language.known number = language.known 0 := by
  have atStart : parser.Behind ([] : Stack Terminal Nonterminal κ) none := rfl
  rcases Parser.exists_end_of_run atStart built with ⟨later, behind, ends, accepts⟩
  exact ⟨_, ends, known_of_end behind accepts⟩

/-- A module does not end with the text of a body. -/
theorem getLast?_ne_bodyText (built : parser.run [] left = .ok first) :
    ∀ terminal ∈ left.getLast?, terminal.1 ≠ .bodyText := by
  intro terminal isLast isBody
  have atStart : parser.Behind ([] : Stack Terminal Nonterminal κ) none := rfl
  rcases Parser.exists_end_of_run atStart built with ⟨later, behind, -, accepts⟩
  rw [Option.mem_def.mp isLast, Option.map_some, isBody, Option.some_or] at behind
  exact notAccepts_end_behind_body behind accepts

end ShaderReflection.Wgsl

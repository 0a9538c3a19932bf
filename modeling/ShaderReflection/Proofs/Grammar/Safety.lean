import ShaderReflection.Proofs.Grammar.Acceptance
import ShaderReflection.Proofs.Grammar.Completeness

/-!
# The machine never gets stuck

A valid automaton takes every derivation, but that says nothing about inputs which are no
derivation. For these it matters where the items of a state come from. In a grounded automaton the
trees on a stack spell the part of a rule that is done, so that a complete rule can always be
reduced. Then the only failure of the machine is a lookahead that is not acceptable (`settle_safe`).
-/

namespace ShaderReflection.Grammar

variable {τ ν κ : Type}

/-! ## Where items come from -/

/-- Where the items of an automaton come from. -/
structure Parser.Grounded [Alphabet τ] [Alphabet ν] (parser : Parser τ ν) : Prop where
  -- What is still to come of a rule is what its body has behind the part that is done.
  genuine : ∀ {number : Nat}, ∀ item ∈ (parser.state number).items,
    ∃ body, parser.rules.numbered.body? item.rule = some body ∧ item.done ≤ body.length ∧
      item.rest = body.drop item.done
  -- The goal is complete only at the end of the input.
  ends : ∀ {number : Nat}, ∀ item ∈ (parser.state number).items, item.rule = 0 →
    ∀ letter, item.ahead.contains (some letter) = false
  -- Where a rule begins, its head leads on.
  leads : ∀ {number index : Nat} {rule : Rule τ ν}, ∀ item ∈ (parser.state number).items,
    item.done = 0 → item.rule = index + 1 → parser.rules.list[index]? = some rule →
      ∃ target, parser.goto number rule.head = some target
  -- Nothing is under way in the first state.
  fresh : ∀ item ∈ (parser.state 0).items, item.done = 0
  -- What is under way behind a symbol was under way in front of it, and the goal begins only in
  -- the first state.
  earlier : ∀ {number target : Nat} {symbol : Symbol Nat Nat},
    (parser.state number).target? symbol = some target →
    ∀ item ∈ (parser.state target).items,
      (item.done = 0 ∧ item.rule ≠ 0) ∨
        ∃ before ∈ (parser.state number).items, before.rule = item.rule ∧
          item.done = before.done + 1 ∧ before.rest.head? = some symbol

/-! ## Tests -/

namespace Item

/-- The goal waits for the end of the input alone. -/
def endsInput (item : Item) : Bool :=
  !Nat.beq item.rule 0 || (Lookaheads.singleton none).covers item.ahead

/-- If the rule begins here, its head leads on. -/
def isExpected (rules : Rules Nat Nat) (state : State) (item : Item) : Bool :=
  match item.done, item.rule with
  | 0, index + 1 =>
      match rules.list[index]? with
      | none => false
      | some rule => (state.target? (.nonterminal rule.head)).isSome
  | _, _ => true

/-- An item behind a symbol begins there, or comes from one in front of the symbol. -/
def comesFrom (state : State) (symbol : Symbol Nat Nat) (item : Item) : Bool :=
  match item.done with
  | 0 => !Nat.beq item.rule 0
  | done + 1 =>
      state.items.any fun before =>
        Nat.beq before.rule item.rule && Nat.beq before.done done &&
          before.rest.head?.any (Symbol.same symbol)

end Item

def State.isGrounded (rules : Rules Nat Nat) (states : Table State) (state : State) : Bool :=
  (state.items.all fun item => item.endsInput && item.isExpected rules state) &&
    state.edges.all fun edge =>
      match states.get? edge.2 with
      | none => true
      | some next => next.items.all (Item.comesFrom state edge.1)

def Parser.isGrounded [Alphabet τ] [Alphabet ν] (parser : Parser τ ν) : Bool :=
  ((parser.state 0).items.all fun item => Nat.beq item.done 0) &&
    parser.automaton.states.all
      (State.isGrounded parser.rules.numbered parser.automaton.states)

namespace Parser

/-! ## The tests are sound -/

section Tests

variable [Alphabet τ] [Alphabet ν] {parser : Parser τ ν}

theorem state_isGrounded (passes : parser.isGrounded = true) (number : Nat) :
    (parser.state number).isGrounded parser.rules.numbered parser.automaton.states = true := by
  simp only [isGrounded, Bool.and_eq_true] at passes
  exact state_passes rfl passes.2 number

theorem grounded_of_tests (isValid : parser.isValid = true) (passes : parser.isGrounded = true) :
    parser.Grounded := by
  have states := state_isGrounded passes
  simp only [State.isGrounded, Bool.and_eq_true, List.all_eq_true] at states
  refine ⟨?genuine, ?ends, ?leads, ?fresh, ?earlier⟩
  case genuine =>
    intro number item isItem
    exact Item.exists_body (genuine_of_isValid isValid number item isItem)
  case ends =>
    intro number item isItem isGoal letter
    have waits := ((states number).1 item isItem).1
    simp only [Item.endsInput, isGoal, Nat.beq_refl, Bool.not_true, Bool.false_or] at waits
    apply Bool.eq_false_iff.mpr
    intro isAhead
    have isEnd := Lookaheads.contains_of_covers waits isAhead
    simp at isEnd
  case leads =>
    intro number index rule item isItem isFresh isRule found
    have expected := ((states number).1 item isItem).2
    have numbered : parser.rules.numbered.list[index]? =
        some ⟨Alphabet.number rule.head, rule.body.map Symbol.numbered⟩ := by
      simp [Rules.numbered, found]
    rw [Item.isExpected, isFresh, isRule] at expected
    simp only [numbered] at expected
    exact Option.isSome_iff_exists.mp expected
  case fresh =>
    intro item isItem
    simp only [isGrounded, Bool.and_eq_true, List.all_eq_true, Nat.beq_eq] at passes
    exact passes.1 item isItem
  case earlier =>
    intro number target symbol isEdge item isItem
    have edge := (states number).2 _ (State.target?_eq_some isEdge)
    simp only [get?_of_mem_items isItem, List.all_eq_true] at edge
    have comes := edge item isItem
    rw [Item.comesFrom] at comes
    split at comes
    · rename_i isFresh
      rw [Table.beq_eq_decide] at comes
      exact .inl ⟨isFresh, by simpa using comes⟩
    · rename_i done isDone
      rcases List.any_eq_true.mp comes with ⟨before, isBefore, same⟩
      simp only [Bool.and_eq_true, Nat.beq_eq, Option.any_eq_true] at same
      rcases same with ⟨⟨sameRule, sameDone⟩, next, isNext, isSymbol⟩
      rw [← Symbol.same_iff.mp isSymbol] at isNext
      exact .inr ⟨before, isBefore, sameRule, by rw [isDone, sameDone], isNext⟩

end Tests

/-! ## What stands on the stack -/

section Stacks

variable [Alphabet τ] [Alphabet ν] {parser : Parser τ ν} {stack : Stack τ ν κ}

theorem row_trees_cons (frame : Frame τ ν κ) (stack : Stack τ ν κ) :
    Derivation.row (Stack.trees (frame :: stack)) =
      Derivation.row (Stack.trees stack) ++ [frame.tree.symbol.numbered] := by
  simp [Derivation.row, Stack.trees]

/-- The trees on top of a stack spell the part of a rule that is done, and the rule began in the
state below them. -/
theorem Path.spells (path : parser.Path stack) (grounded : parser.Grounded) {item : Item}
    (isItem : item ∈ (parser.state (Stack.state stack)).items) {body : List (Symbol Nat Nat)}
    (isBody : parser.rules.numbered.body? item.rule = some body) :
    Derivation.row (Stack.trees (stack.take item.done)) = body.take item.done ∧
      ∃ origin ∈ (parser.state (Stack.state (stack.drop item.done))).items,
        origin.rule = item.rule ∧ origin.done = 0 := by
  generalize isDone : item.done = done
  induction done generalizing stack item with
  | zero => exact ⟨rfl, item, isItem, rfl, isDone⟩
  | succ done induction =>
      cases path with
      | nil =>
          have isFresh := grounded.fresh item isItem
          omega
      | @cons frame below onPath leads =>
          rcases grounded.earlier leads item isItem with
            ⟨isFresh, -⟩ | ⟨before, isBefore, sameRule, isNext, isSymbol⟩
          · omega
          · have sameDone : before.done = done := by omega
            rcases induction onPath isBefore (sameRule ▸ isBody) sameDone with
              ⟨spelled, origin, isOrigin, isRule, isFresh⟩
            rcases grounded.genuine before isBefore with ⟨other, isOther, -, isRest⟩
            rw [sameRule, isBody] at isOther
            cases isOther
            refine ⟨?_, origin, isOrigin, isRule.trans sameRule, isFresh⟩
            rw [isRest, sameDone, List.head?_drop] at isSymbol
            rw [List.take_succ_cons, row_trees_cons, spelled, List.take_add_one, isSymbol]
            rfl

/-- Behind a symbol the goal is under way, but does not begin. -/
theorem Path.eq_nil_of_goal (path : parser.Path stack) (grounded : parser.Grounded) {item : Item}
    (isItem : item ∈ (parser.state (Stack.state stack)).items) (isGoal : item.rule = 0)
    (isFresh : item.done = 0) : stack = [] := by
  cases path with
  | nil => rfl
  | cons onPath leads =>
      rcases grounded.earlier leads item isItem with ⟨-, notGoal⟩ | ⟨before, -, -, isNext, -⟩
      · exact absurd isGoal notGoal
      · omega

/-- The trees of a complete rule are on top of the stack. -/
theorem Path.spells_complete (path : parser.Path stack) (grounded : parser.Grounded) {rule : Nat}
    {ahead : Option Nat} (has : (parser.state (Stack.state stack)).Has rule [] ahead)
    {body : List (Symbol Nat Nat)} (isBody : parser.rules.numbered.body? rule = some body) :
    Derivation.row (Stack.trees (stack.take body.length)) = body ∧
      ∃ origin ∈ (parser.state (Stack.state (stack.drop body.length))).items,
        origin.rule = rule ∧ origin.done = 0 := by
  rcases has with ⟨item, isItem, rfl, isRest, -⟩
  rcases grounded.genuine item isItem with ⟨other, isOther, bound, rest⟩
  rw [isBody] at isOther
  cases isOther
  have isDone : item.done = body.length := by
    rw [isRest] at rest
    have atEnd := List.drop_eq_nil_iff.mp rest.symm
    omega
  have spelled := path.spells grounded isItem isBody
  rwa [isDone, List.take_length] at spelled

end Stacks

/-! ## Steps -/

section Steps

variable [Alphabet τ] [Alphabet ν] [DecidableEq τ] [DecidableEq ν] {parser : Parser τ ν}
  {rank : ν → Nat} {stack later : Stack τ ν κ}

/-- A reduction that a state asks for can be carried out. -/
theorem exists_reduce (path : parser.Path stack) (grounded : parser.Grounded) {ahead : Option τ}
    {rule : Rule τ ν}
    (reduces : parser.action (Stack.state stack) ahead = some (.reduce rule)) :
    ∃ later, parser.reduce rule stack = .ok later := by
  rcases has_of_action_reduce reduces with ⟨index, found, has⟩
  rcases path.spells_complete grounded has (body?_numbered found) with
    ⟨spelled, origin, isOrigin, isRule, isFresh⟩
  rw [List.length_map] at spelled isOrigin
  have body : (Stack.trees (stack.take rule.body.length)).map Derivation.symbol = rule.body := by
    rw [Derivation.row, ← Function.comp_def Symbol.numbered, ← List.map_map] at spelled
    exact (List.map_inj_right fun _ _ => Symbol.numbered_injective).mp spelled
  rcases grounded.leads origin isOrigin isFresh isRule found with ⟨target, leads⟩
  refine ⟨⟨target, .node rule (Stack.trees (stack.take rule.body.length))⟩ ::
    stack.drop rule.body.length, ?_⟩
  simp only [reduce, body, leads, if_true]

omit [Alphabet ν] [DecidableEq τ] [DecidableEq ν] in
theorem has_of_action_accept {number : Nat} {ahead : Option τ}
    (accepts : parser.action number ahead = some .accept) :
    (parser.state number).Has 0 [] (ahead.map Alphabet.number) := by
  simp only [action] at accepts
  split at accepts
  · cases accepts
  · split at accepts
    · cases accepts
    · rename_i complete
      rcases Option.map_eq_some_iff.mp complete with ⟨item, isItem, isRule⟩
      have passes := List.find?_some isItem
      simp only [Bool.and_eq_true, List.isEmpty_iff] at passes
      exact ⟨item, List.mem_of_find?_eq_some isItem, isRule, passes⟩
    · rcases Option.map_eq_some_iff.mp accepts with ⟨rule, -, isReduction⟩
      cases isReduction

omit [DecidableEq τ] [DecidableEq ν] in
/-- What is accepted is one tree of the start symbol, at the end of the input. -/
theorem exists_frame_of_accept (path : parser.Path stack) (grounded : parser.Grounded)
    {ahead : Option τ} (accepts : parser.action (Stack.state stack) ahead = some .accept) :
    ahead = none ∧ ∃ frame, stack = [frame] ∧
      frame.tree.symbol = .nonterminal parser.rules.start := by
  have has := has_of_action_accept accepts
  rcases path.spells_complete grounded has rfl with
    ⟨spelled, origin, isOrigin, isGoal, isFresh⟩
  have isBottom := (path.drop 1).eq_nil_of_goal grounded isOrigin isGoal isFresh
  constructor
  · rcases has with ⟨item, isItem, isGoal, -, isAhead⟩
    cases ahead with
    | none => rfl
    | some letter =>
        rw [Option.map_some, grounded.ends item isItem isGoal] at isAhead
        cases isAhead
  · cases stack with
    | nil => cases spelled
    | cons frame below =>
        cases isBottom
        have isStart := List.singleton_inj.mp spelled
        exact ⟨frame, rfl, Symbol.numbered_injective isStart⟩

/-- What comes of a lookahead: a terminal is on the stack, or the input has ended and is accepted,
or the lookahead is not acceptable. -/
def Safe (parser : Parser τ ν) (stack : Stack τ ν κ) (ahead : Option (τ × κ)) :
    Except Failure (Verdict τ ν κ) → Prop
  | .ok (.shifted later) =>
      ahead.isSome ∧ parser.Path later ∧ later.length ≤ max stack.length 1 + 1
  | .ok (.accepted _) => ahead = none
  | .error failure => failure = .unexpected

omit [Alphabet τ] in
theorem length_reduce {rule : Rule τ ν} (reduced : parser.reduce rule stack = .ok later)
    (fills : rule.body = [] → stack = []) : later.length ≤ max stack.length 1 := by
  have short := length_of_reduce reduced
  rcases eq_of_reduce reduced with ⟨-, target, -, rfl⟩
  rw [List.length_cons, List.length_drop]
  cases body : rule.body with
  | nil => simp [fills body]
  | cons symbol rest =>
      rw [body, List.length_cons] at short
      rw [List.length_cons]
      omega

/-- With fuel for all reductions the machine deals with every lookahead. -/
theorem settle_safe (valid : parser.Valid) (graded : parser.rules.Graded rank)
    (grounded : parser.Grounded) (path : parser.Path stack) (ahead : Option (τ × κ)) {fuel : Nat}
    (enough : stack.weight parser.rules.list.length rank < fuel) :
    parser.Safe stack ahead (parser.settle ahead fuel stack) := by
  -- Each reduction makes the stack lighter, so that the fuel lasts.
  induction fuel generalizing stack with
  | zero => omega
  | succ fuel induction =>
      unfold settle
      cases acts : parser.action (Stack.state stack) (ahead.map Prod.fst) with
      | none => rfl
      | some action =>
          cases action with
          | shift target =>
              cases ahead with
              | none =>
                  simp only [Parser.action, Option.map_none, Option.bind_none] at acts
                  split at acts
                  · cases acts
                  · cases acts
                  · rcases Option.map_eq_some_iff.mp acts with ⟨rule, -, isReduction⟩
                    cases isReduction
              | some terminal =>
                  refine ⟨rfl, .cons path (target?_of_action_shift acts), ?_⟩
                  rw [List.length_cons]
                  omega
          | reduce rule =>
              rcases exists_reduce path grounded acts with ⟨smaller, reduced⟩
              have fills := path.eq_nil valid acts
              have lighter := weight_reduce graded (mem_of_action_reduce acts) reduced fills
              have shorter := length_reduce reduced fills
              have safe := induction (path.reduce reduced) (by omega)
              simp only [reduced]
              revert safe
              generalize parser.settle ahead fuel smaller = outcome
              intro safe
              rcases outcome with failure | (final | tree)
              · exact safe
              · exact ⟨safe.1, safe.2.1, by have bound := safe.2.2; omega⟩
              · exact safe
          | accept =>
              rcases exists_frame_of_accept path grounded acts with ⟨atEnd, frame, rfl, isStart⟩
              simp only [isStart, if_true]
              exact Option.map_eq_none_iff.mp atEnd

theorem feed_safe (valid : parser.Valid) (graded : parser.rules.Graded rank)
    (grounded : parser.Grounded) (path : parser.Path stack) (ahead : Option (τ × κ)) :
    parser.Safe stack ahead (parser.feed stack ahead) :=
  settle_safe valid graded grounded path ahead (weight_lt_patience graded stack)

end Steps

end Parser

end ShaderReflection.Grammar

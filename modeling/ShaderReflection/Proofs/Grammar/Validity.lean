import ShaderReflection.Grammar.Soundness

/-!
# Valid automata

An automaton is data, and nothing in its construction says that it is the automaton of its grammar.
What a parser needs of its automaton is a handful of closure properties of the item sets. They are
stated here as a proposition, `Parser.Valid`, and as a test that can be evaluated,
`Parser.isValid`; `valid_of_isValid` says that an automaton which passes the test has them.
-/

namespace ShaderReflection.Grammar

/-! ## Tests on tables -/

namespace Table

variable {α : Type}

def all (test : α → Bool) : Table α → Bool
  | .empty => true
  | .branch value odd even => value.all test && odd.all test && even.all test

theorem of_all {test : α → Bool} {table : Table α} (passes : table.all test = true)
    {number : Nat} {value : α} (found : table.get? number = some value) :
    test value = true := by
  induction table generalizing number with
  | empty => cases found
  | branch root odd even oddInduction evenInduction =>
      simp only [all, Bool.and_eq_true] at passes
      rw [get?_eq_parts] at found
      simp only [parts] at found
      split at found
      · have rootPasses := passes.1.1
        rw [found] at rootPasses
        exact rootPasses
      · split at found
        · exact oddInduction passes.1.2 found
        · exact evenInduction passes.2 found

end Table

/-- A test that all states of the automaton pass, and the empty one. -/
theorem Parser.state_passes {τ ν : Type} {parser : Parser τ ν} {test : State → Bool}
    (empty : test ⟨[], []⟩ = true) (all : parser.automaton.states.all test = true)
    (number : Nat) : test (parser.state number) = true := by
  rw [state]
  cases search : parser.automaton.states.get? number with
  | none => exact empty
  | some found => exact Table.of_all all search

/-- A state with items is in use. -/
theorem Parser.get?_of_mem_items {τ ν : Type} {parser : Parser τ ν} {number : Nat} {item : Item}
    (isItem : item ∈ (parser.state number).items) :
    parser.automaton.states.get? number = some (parser.state number) := by
  rw [state] at isItem ⊢
  cases search : parser.automaton.states.get? number with
  | none => simp [search] at isItem
  | some found => rfl

/-! ## What a valid automaton has -/

/-- A state has a rule under way: the given symbols are still to come, and the rule may be complete
before the lookahead. -/
def State.Has (state : State) (rule : Nat) (rest : List (Symbol Nat Nat)) (ahead : Option Nat) :
    Prop :=
  ∃ item ∈ state.items, item.rule = rule ∧ item.rest = rest ∧ item.ahead.contains ahead = true

/-- A table of beginnings knows at least what one rule says about its head. -/
def Beginnings.Respects (table : Beginnings) (rule : Rule Nat Nat) : Prop :=
  let front := table.front ⟨Lookaheads.empty, true⟩ rule.body
  (∀ ahead, front.first.contains ahead = true →
      (table.find rule.head).first.contains ahead = true) ∧
    (front.nullable = true → (table.find rule.head).nullable = true)

namespace Parser

variable {τ ν : Type} [Alphabet τ] [Alphabet ν]

def guide (parser : Parser τ ν) : Guide := Guide.ofRules parser.rules.numbered.list

/-- The properties of an automaton on which the correctness of the parsing machine rests. Rule
number zero is the goal, and rule `index + 1` is the rule with that index in the grammar. -/
structure Valid (parser : Parser τ ν) : Prop where
  -- The goal is under way in the first state.
  begins : (parser.state 0).Has 0 [.nonterminal (Alphabet.number parser.rules.start)] none
  -- The beginnings of nonterminals agree with the rules.
  respects : ∀ rule ∈ parser.rules.numbered.list, parser.guide.beginnings.Respects rule
  -- Where a nonterminal may come next, each of its rules is under way.
  closes : ∀ {number rule letter : Nat} {rest : List (Symbol Nat Nat)} {ahead : Option Nat},
    (parser.state number).Has rule (.nonterminal letter :: rest) ahead →
    ∀ {index : Nat} {member : Rule τ ν}, parser.rules.list[index]? = some member →
    Alphabet.number member.head = letter →
    ∀ {first : Option Nat},
      (parser.guide.beginnings.lookaheads rest (.singleton ahead)).contains first = true →
      (parser.state number).Has (index + 1) (member.body.map Symbol.numbered) first
  -- A symbol that may come next leads to a state in which the rule is one symbol further.
  moves : ∀ {number rule : Nat} {symbol : Symbol Nat Nat} {rest : List (Symbol Nat Nat)}
    {ahead : Option Nat}, (parser.state number).Has rule (symbol :: rest) ahead →
    ∃ target, (parser.state number).target? symbol = some target ∧
      (parser.state target).Has rule rest ahead
  -- A complete rule is the only thing that its lookahead allows.
  completes : ∀ {number rule : Nat} {ahead : Option Nat},
    (parser.state number).Has rule [] ahead →
    (parser.state number).complete? ahead = some rule ∧
      ∀ letter, ahead = some letter → (parser.state number).target? (.terminal letter) = none
  -- Only the first state completes a rule without symbols.
  fills : ∀ {number target : Nat} {symbol : Symbol Nat Nat},
    (parser.state number).target? symbol = some target →
    ∀ {index : Nat} {member : Rule τ ν}, parser.rules.list[index]? = some member →
    ∀ {ahead : Option Nat}, (parser.state target).Has (index + 1) [] ahead → member.body ≠ []

end Parser

/-! ## Tests -/

def sameRow : List (Symbol Nat Nat) → List (Symbol Nat Nat) → Bool
  | [], [] => true
  | left :: lefts, right :: rights => left.same right && sameRow lefts rights
  | _, _ => false

theorem sameRow_iff {left right : List (Symbol Nat Nat)} :
    sameRow left right = true ↔ left = right := by
  induction left generalizing right with
  | nil => cases right <;> simp [sameRow]
  | cons symbol left induction =>
      cases right with
      | nil => simp [sameRow]
      | cons other right => simp [sameRow, Symbol.same_iff, induction]

/-- The body of the rule with a given number, where number zero is the goal. -/
def Rules.body? (rules : Rules Nat Nat) : Nat → Option (List (Symbol Nat Nat))
  | 0 => some [.nonterminal rules.start]
  | index + 1 => rules.list[index]?.map Rule.body

namespace Lookaheads

def apart (left right : Lookaheads) : Bool := Nat.beq (Nat.land left.bits right.bits) 0

theorem not_contains_of_apart {left right : Lookaheads} (separate : left.apart right = true)
    {ahead : Option Nat} (member : left.contains ahead = true) :
    right.contains ahead = false := by
  rw [apart, Nat.beq_eq] at separate
  rw [contains_eq_testBit] at member ⊢
  have both : (Nat.land left.bits right.bits).testBit (position ahead) =
      (left.bits.testBit (position ahead) && right.bits.testBit (position ahead)) :=
    Nat.testBit_and left.bits right.bits (position ahead)
  rw [separate, member, Nat.zero_testBit, Bool.true_and] at both
  exact both.symm

end Lookaheads

namespace State

/-- The state has a rule at a place, with at least the given lookaheads. -/
def includes (state : State) (rule done : Nat) (ahead : Lookaheads) : Bool :=
  state.items.any fun item =>
    Nat.beq item.rule rule && Nat.beq item.done done && item.ahead.covers ahead

end State

namespace Item

/-- What is still to come of a rule is what its body has behind the part that is done. -/
def isGenuine (rules : Rules Nat Nat) (item : Item) : Bool :=
  match rules.body? item.rule with
  | none => false
  | some body => sameRow (body.drop item.done) item.rest && Nat.ble item.done body.length

/-- The rules of a nonterminal that comes next are in the state. -/
def isClosed (guide : Guide) (state : State) (item : Item) : Bool :=
  match item.rest with
  | .nonterminal letter :: rest =>
      (guide.families.members letter).all fun member =>
        state.includes member.1 0 (guide.beginnings.lookaheads rest item.ahead)
  | _ => true

/-- The symbol that comes next leads to a state that has the rule one symbol further. -/
def isFollowed (states : Table State) (state : State) (item : Item) : Bool :=
  match item.rest with
  | [] => true
  | symbol :: _ =>
      match state.target? symbol with
      | none => false
      | some target =>
          match states.get? target with
          | none => false
          | some next => next.includes item.rule (Nat.succ item.done) item.ahead

/-- If the rule is complete, its lookaheads belong to no other complete rule and lead nowhere. -/
def isAlone (state : State) (item : Item) : Bool :=
  match item.rest with
  | _ :: _ => true
  | [] =>
      (state.edges.all fun edge =>
        match edge.1 with
        | .terminal letter => !item.ahead.contains (some letter)
        | .nonterminal _ => true) &&
        state.items.all fun other =>
          !other.rest.isEmpty || Nat.beq other.rule item.rule || item.ahead.apart other.ahead

end Item

/-- No edge leads to a state that completes a rule without symbols. -/
def State.fills (states : Table State) (state : State) : Bool :=
  state.edges.all fun edge =>
    match states.get? edge.2 with
    | none => true
    | some next => next.items.all fun item => !(item.rest.isEmpty && Nat.beq item.done 0)

def Beginnings.respects (table : Beginnings) (rule : Rule Nat Nat) : Bool :=
  let front := table.front ⟨Lookaheads.empty, true⟩ rule.body
  (table.find rule.head).first.covers front.first &&
    ((table.find rule.head).nullable || !front.nullable)

def State.isValid (rules : Rules Nat Nat) (guide : Guide) (states : Table State) (state : State) :
    Bool :=
  state.fills states && state.items.all fun item =>
    item.isGenuine rules && item.isClosed guide state && item.isFollowed states state &&
      item.isAlone state

def Parser.isValid {τ ν : Type} [Alphabet τ] [Alphabet ν] (parser : Parser τ ν) : Bool :=
  let rules := parser.rules.numbered
  let guide := parser.guide
  (parser.state 0).includes 0 0 (Lookaheads.singleton none) &&
    rules.list.all guide.beginnings.respects &&
    parser.automaton.states.all (State.isValid rules guide parser.automaton.states)

/-! ## The tests are sound -/

theorem Families.mem_members_gather {rules : List (Rule Nat Nat)} {index : Nat}
    {rule : Rule Nat Nat} (found : rules[index]? = some rule) (number : Nat) :
    (number + index, rule.body) ∈ (gather number rules).members rule.head := by
  induction rules generalizing index number with
  | nil => simp at found
  | cons first rest induction =>
      simp only [gather, members, Table.get?_insert]
      cases index with
      | zero =>
          simp only [List.getElem?_cons_zero, Option.some.injEq] at found
          subst found
          simp
      | succ index =>
          have later := induction (by simpa using found) (number + 1)
          rw [Nat.add_assoc, Nat.add_comm 1 index] at later
          split
          · rename_i list equal
            split at equal
            · rename_i sameHead
              cases equal
              rw [← sameHead]
              exact List.mem_cons_of_mem _ later
            · simpa only [members, equal] using later
          · rename_i equal
            split at equal
            · cases equal
            · simp [members, equal] at later

namespace Beginnings

theorem respects_of_test {table : Beginnings} {rule : Rule Nat Nat}
    (passes : table.respects rule = true) : table.Respects rule := by
  simp only [respects, Bool.and_eq_true, Bool.or_eq_true, Bool.not_eq_true'] at passes
  rcases passes with ⟨covered, nullable⟩
  refine ⟨fun ahead member => Lookaheads.contains_of_covers covered member, ?_⟩
  intro isNullable
  rcases nullable with known | contrary
  · exact known
  · rw [isNullable] at contrary
    cases contrary

theorem contains_lookaheads {table : Beginnings} {row : List (Symbol Nat Nat)}
    {small large : Lookaheads}
    (smaller : ∀ ahead, small.contains ahead = true → large.contains ahead = true)
    {ahead : Option Nat} (member : (table.lookaheads row small).contains ahead = true) :
    (table.lookaheads row large).contains ahead = true := by
  induction row with
  | nil => exact smaller ahead member
  | cons symbol row induction =>
      cases symbol with
      | terminal letter => exact member
      | nonterminal letter =>
          simp only [lookaheads, front] at member induction ⊢
          split
          · rename_i first isFind
            rw [isFind] at member
            exact member
          · rename_i first isFind
            rw [isFind] at member
            simp only [Lookaheads.contains_union, Bool.or_eq_true] at member ⊢
            exact member.imp id induction

end Beginnings

/-- What is to come of a genuine item is the end of the body of its rule. -/
theorem Item.exists_body {rules : Rules Nat Nat} {item : Item}
    (genuine : item.isGenuine rules = true) : ∃ body, rules.body? item.rule = some body ∧
      item.done ≤ body.length ∧ item.rest = body.drop item.done := by
  rw [Item.isGenuine] at genuine
  split at genuine
  · cases genuine
  · rename_i body isBody
    simp only [Bool.and_eq_true, sameRow_iff, Nat.ble_eq] at genuine
    exact ⟨body, isBody, genuine.2, genuine.1.symm⟩

namespace State

theorem has_of_includes {rules : Rules Nat Nat} {state : State}
    (genuine : ∀ item ∈ state.items, item.isGenuine rules = true) {rule done : Nat}
    {ahead : Lookaheads} (included : state.includes rule done ahead = true)
    {body : List (Symbol Nat Nat)} (isBody : rules.body? rule = some body)
    {next : Option Nat} (member : ahead.contains next = true) :
    state.Has rule (body.drop done) next := by
  rcases List.any_eq_true.mp included with ⟨item, isItem, passes⟩
  simp only [Bool.and_eq_true, Nat.beq_eq] at passes
  rcases passes with ⟨⟨rfl, rfl⟩, covered⟩
  rcases Item.exists_body (genuine item isItem) with ⟨own, isOwn, -, isRest⟩
  cases isOwn.symm.trans isBody
  exact ⟨item, isItem, rfl, isRest, Lookaheads.contains_of_covers covered member⟩

theorem target?_eq_some {state : State} {symbol : Symbol Nat Nat} {target : Nat}
    (leads : state.target? symbol = some target) : (symbol, target) ∈ state.edges := by
  rcases Option.map_eq_some_iff.mp leads with ⟨edge, isEdge, equal⟩
  have sameSymbol := List.find?_some isEdge
  rw [Symbol.same_iff] at sameSymbol
  have isPair : edge = (symbol, target) := Prod.ext sameSymbol equal
  exact isPair ▸ List.mem_of_find?_eq_some isEdge

/-- A lookahead with which an item is alone selects the rule of that item. -/
theorem complete?_of_isAlone {state : State} {item : Item} (isItem : item ∈ state.items)
    (isComplete : item.rest = []) (alone : item.isAlone state = true) {ahead : Option Nat}
    (member : item.ahead.contains ahead = true) : state.complete? ahead = some item.rule := by
  simp only [Item.isAlone, isComplete, Bool.and_eq_true, List.all_eq_true] at alone
  rw [complete?]
  cases search : state.items.find? fun item =>
      item.rest.isEmpty && item.ahead.contains ahead with
  | none =>
      have contrary := List.find?_eq_none.mp search item isItem
      simp [isComplete, member] at contrary
  | some found =>
      have passes := List.find?_some search
      simp only [Bool.and_eq_true] at passes
      have choice := alone.2 found (List.mem_of_find?_eq_some search)
      simp only [passes.1, Bool.not_true, Bool.false_or, Bool.or_eq_true, Nat.beq_eq] at choice
      rcases choice with sameRule | separate
      · simp [sameRule]
      · have contrary := Lookaheads.not_contains_of_apart separate member
        rw [passes.2] at contrary
        cases contrary

theorem target?_of_isAlone {state : State} {item : Item} (isComplete : item.rest = [])
    (alone : item.isAlone state = true) {letter : Nat}
    (member : item.ahead.contains (some letter) = true) :
    state.target? (.terminal letter) = none := by
  simp only [Item.isAlone, isComplete, Bool.and_eq_true, List.all_eq_true] at alone
  cases leads : state.target? (.terminal letter) with
  | none => rfl
  | some target =>
      have contrary := alone.1 _ (target?_eq_some leads)
      simp [member] at contrary

end State

namespace Parser

variable {τ ν : Type} [Alphabet τ] [Alphabet ν] {parser : Parser τ ν}

theorem body?_numbered {index : Nat} {rule : Rule τ ν}
    (found : parser.rules.list[index]? = some rule) :
    parser.rules.numbered.body? (index + 1) = some (rule.body.map Symbol.numbered) := by
  simp [Rules.body?, Rules.numbered, found]

/-- A state of an automaton that passes the test passes the test for states. A state that is not in
use has no items and no edges, and passes as well. -/
theorem state_isValid (passes : parser.isValid = true) (number : Nat) :
    (parser.state number).isValid parser.rules.numbered parser.guide
      parser.automaton.states = true := by
  simp only [isValid, Bool.and_eq_true] at passes
  exact state_passes rfl passes.2 number

theorem item_isValid (passes : parser.isValid = true) {number : Nat} {item : Item}
    (isItem : item ∈ (parser.state number).items) :
    item.isGenuine parser.rules.numbered = true ∧
      item.isClosed parser.guide (parser.state number) = true ∧
      item.isFollowed parser.automaton.states (parser.state number) = true ∧
      item.isAlone (parser.state number) = true := by
  have test := state_isValid passes number
  simp only [State.isValid, Bool.and_eq_true, List.all_eq_true] at test
  have parts := test.2 item isItem
  exact ⟨parts.1.1.1, parts.1.1.2, parts.1.2, parts.2⟩

theorem genuine_of_isValid (passes : parser.isValid = true) (number : Nat) :
    ∀ item ∈ (parser.state number).items, item.isGenuine parser.rules.numbered = true :=
  fun _ isItem => (item_isValid passes isItem).1

theorem closes_of_isValid (passes : parser.isValid = true) {number rule letter : Nat}
    {rest : List (Symbol Nat Nat)} {ahead : Option Nat}
    (has : (parser.state number).Has rule (.nonterminal letter :: rest) ahead) {index : Nat}
    {member : Rule τ ν} (found : parser.rules.list[index]? = some member)
    (isHead : Alphabet.number member.head = letter) {first : Option Nat}
    (isFirst : (parser.guide.beginnings.lookaheads rest (.singleton ahead)).contains first = true) :
    (parser.state number).Has (index + 1) (member.body.map Symbol.numbered) first := by
  rcases has with ⟨item, isItem, -, isRest, isAhead⟩
  have closed := (item_isValid passes isItem).2.1
  simp only [Item.isClosed, isRest, List.all_eq_true] at closed
  have isMember : parser.rules.numbered.list[index]? =
      some ⟨letter, member.body.map Symbol.numbered⟩ := by
    simp [Rules.numbered, found, isHead]
  have included := closed _ (Families.mem_members_gather isMember 1)
  rw [Nat.add_comm 1 index] at included
  refine State.has_of_includes (genuine_of_isValid passes number) included (body?_numbered found) ?_
  refine Beginnings.contains_lookaheads ?_ isFirst
  intro other isOther
  rw [Lookaheads.contains_singleton, decide_eq_true_iff] at isOther
  exact isOther ▸ isAhead

theorem moves_of_isValid (passes : parser.isValid = true) {number rule : Nat}
    {symbol : Symbol Nat Nat} {rest : List (Symbol Nat Nat)} {ahead : Option Nat}
    (has : (parser.state number).Has rule (symbol :: rest) ahead) :
    ∃ target, (parser.state number).target? symbol = some target ∧
      (parser.state target).Has rule rest ahead := by
  rcases has with ⟨item, isItem, rfl, isRest, isAhead⟩
  rcases Item.exists_body (genuine_of_isValid passes number item isItem) with
    ⟨body, isBody, -, isEnd⟩
  have isTail : body.drop (Nat.succ item.done) = rest := by
    rw [Nat.succ_eq_add_one, ← List.drop_drop, ← isEnd, isRest, List.drop_one, List.tail_cons]
  have followed := (item_isValid passes isItem).2.2.1
  simp only [Item.isFollowed, isRest] at followed
  split at followed
  · cases followed
  · rename_i target leads
    refine ⟨target, leads, ?_⟩
    split at followed
    · cases followed
    · rename_i next isNext
      have isState : parser.state target = next := by simp [state, isNext]
      rw [← isState] at followed
      rw [← isTail]
      exact State.has_of_includes (genuine_of_isValid passes target) followed isBody isAhead

theorem fills_of_isValid (passes : parser.isValid = true) {number target : Nat}
    {symbol : Symbol Nat Nat} (leads : (parser.state number).target? symbol = some target)
    {index : Nat} {member : Rule τ ν} (found : parser.rules.list[index]? = some member)
    {ahead : Option Nat} (has : (parser.state target).Has (index + 1) [] ahead) :
    member.body ≠ [] := by
  rcases has with ⟨item, isItem, isRule, isRest, -⟩
  intro isEmpty
  have test := state_isValid passes number
  simp only [State.isValid, State.fills, Bool.and_eq_true, List.all_eq_true] at test
  have edge := test.1 _ (State.target?_eq_some leads)
  simp only [get?_of_mem_items isItem, List.all_eq_true] at edge
  have notFresh := edge item isItem
  rcases Item.exists_body (genuine_of_isValid passes target item isItem) with
    ⟨body, isBody, inside, -⟩
  rw [isRule, body?_numbered found, isEmpty] at isBody
  cases isBody
  have isFresh : item.done = 0 := Nat.le_zero.mp inside
  simp [isRest, isFresh] at notFresh

theorem valid_of_isValid (passes : parser.isValid = true) : parser.Valid := by
  have whole := passes
  simp only [isValid, Bool.and_eq_true, List.all_eq_true] at whole
  refine ⟨?begins, ?respects, closes_of_isValid passes, moves_of_isValid passes, ?completes,
    fills_of_isValid passes⟩
  case begins =>
    exact State.has_of_includes (genuine_of_isValid passes 0) whole.1.1 rfl (by simp)
  case respects =>
    exact fun rule isRule => Beginnings.respects_of_test (whole.1.2 rule isRule)
  case completes =>
    rintro number rule ahead ⟨item, isItem, isRule, isRest, member⟩
    have alone := (item_isValid passes isItem).2.2.2
    refine ⟨isRule ▸ State.complete?_of_isAlone isItem isRest alone member, ?_⟩
    rintro letter rfl
    exact State.target?_of_isAlone isRest alone member

end Parser

end ShaderReflection.Grammar

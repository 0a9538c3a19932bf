import ShaderReflection.Grammar.Lookahead

/-!
# The automaton of a grammar

The states of a deterministic bottom-up parser with one token of lookahead, in which states with
the same core are one state and share their lookaheads. A state is a set of items: rules that may
be under way, each with the part of its body that is still to come and the lookaheads after which
it may be complete. What a state does is read off its items.

Everything here is in terms of the numbers of letters and rules.
-/

namespace ShaderReflection.Grammar

/-! ## Items -/

/-- A rule under way. Rules are numbered from one in the order of the grammar; number zero is the
goal, whose body is the start symbol alone. -/
structure Item where
  rule : Nat
  done : Nat
  rest : List (Symbol Nat Nat)
  ahead : Lookaheads
deriving DecidableEq, Repr

namespace Item

/-- The same rule at the same place, whatever the lookaheads. -/
def sameCore (left right : Item) : Bool :=
  Nat.beq left.rule right.rule && Nat.beq left.done right.done

def advance (item : Item) (rest : List (Symbol Nat Nat)) : Item :=
  ⟨item.rule, Nat.succ item.done, rest, item.ahead⟩

end Item

/-! ## Rules by head -/

/-- The rules of each nonterminal, as rule numbers and bodies. -/
abbrev Families := Table (List (Nat × List (Symbol Nat Nat)))

namespace Families

def members (families : Families) (head : Nat) : List (Nat × List (Symbol Nat Nat)) :=
  match families.get? head with
  | some list => list
  | none => []

/-- Gather rules by head; the first rule has the given number. -/
def gather : (number : Nat) → List (Rule Nat Nat) → Families
  | _, [] => .empty
  | number, rule :: rest =>
      let families := gather (number + 1) rest
      families.insert rule.head ((number, rule.body) :: families.members rule.head)

end Families

/-- What building a state needs to know of the grammar. -/
structure Guide where
  families : Families
  beginnings : Beginnings
  bound : Nat

def Guide.ofRules (rules : List (Rule Nat Nat)) : Guide :=
  ⟨Families.gather 1 rules, Beginnings.ofRules rules, rules.length * rules.length⟩

/-! ## Items that may begin in a state -/

/-- A nonterminal that may begin here, and what may follow it. -/
structure Expected where
  letter : Nat
  ahead : Lookaheads

/-- The nonterminal in front of a row of symbols, with what may follow it there. -/
def Guide.expected (guide : Guide) (ahead : Lookaheads) : List (Symbol Nat Nat) → List Expected
  | .nonterminal letter :: rest => [⟨letter, guide.beginnings.lookaheads rest ahead⟩]
  | _ => []

/-- Add an expectation to those known; `none` when it is nothing new. -/
def record (news : Expected) : List Expected → Option (List Expected)
  | [] => some [news]
  | known :: rest =>
      match Nat.beq known.letter news.letter with
      | true =>
          match known.ahead.covers news.ahead with
          | true => none
          | false => some (⟨known.letter, known.ahead.union news.ahead⟩ :: rest)
      | false =>
          match record news rest with
          | none => none
          | some later => some (known :: later)

/-- Follow expectations through the rules of the expected nonterminals until nothing new comes. -/
def Guide.expectAll (guide : Guide) :
    (fuel : Nat) → (pending known : List Expected) → List Expected
  | 0, _, known => known
  | _ + 1, [], known => known
  | fuel + 1, news :: pending, known =>
      match record news known with
      | none => guide.expectAll fuel pending known
      | some later =>
          let further := (guide.families.members news.letter).flatMap fun member =>
            guide.expected news.ahead member.2
          guide.expectAll fuel (further ++ pending) later

/-- Complete the items under way in a state by those that may begin in it. -/
def Guide.closure (guide : Guide) (kernel : List Item) : List Item :=
  let pending := kernel.flatMap fun item => guide.expected item.ahead item.rest
  kernel ++ (guide.expectAll guide.bound pending []).flatMap fun expected =>
    (guide.families.members expected.letter).map fun member =>
      ⟨member.1, 0, member.2, expected.ahead⟩

/-! ## Moves -/

/-- The items under way after a symbol. -/
structure Move where
  symbol : Symbol Nat Nat
  kernel : List Item

/-- Insert an item into a list that is ordered by rule number. -/
def insertItem (item : Item) : List Item → List Item
  | [] => [item]
  | other :: rest =>
      match Nat.ble item.rule other.rule with
      | true => item :: other :: rest
      | false => other :: insertItem item rest

/-- Put an item with the others that come after the same symbol. -/
def addMove (symbol : Symbol Nat Nat) (item : Item) : List Move → List Move
  | [] => [⟨symbol, [item]⟩]
  | move :: rest =>
      match move.symbol.same symbol with
      | true => ⟨symbol, insertItem item move.kernel⟩ :: rest
      | false => move :: addMove symbol item rest

def movesOf : List Item → List Move
  | [] => []
  | item :: items =>
      match item.rest with
      | [] => movesOf items
      | symbol :: rest => addMove symbol (item.advance rest) (movesOf items)

/-! ## Kernels -/

/-- Kernels with the same items, lookaheads aside. -/
def sameKernel : List Item → List Item → Bool
  | [], [] => true
  | left :: lefts, right :: rights => left.sameCore right && sameKernel lefts rights
  | _, _ => false

/-- All lookaheads of the second kernel are in the first, item by item. -/
def coversKernel : List Item → List Item → Bool
  | whole :: wholes, part :: parts => whole.ahead.covers part.ahead && coversKernel wholes parts
  | _, _ => true

/-- Add the lookaheads of the second kernel to the first, item by item. -/
def widenKernel : List Item → List Item → List Item
  | whole :: wholes, part :: parts =>
      { whole with ahead := whole.ahead.union part.ahead } :: widenKernel wholes parts
  | wholes, _ => wholes

/-! ## States -/

/-- A state: its items, and the number of the state that each symbol leads to. -/
structure State where
  items : List Item
  edges : List (Symbol Nat Nat × Nat)
deriving Repr

/-- The states found so far. `shelves` lists the numbers of states by the first rule in their
kernel, and `pending` has the numbers of the states whose moves are still to be followed. -/
structure Survey where
  count : Nat
  kernels : Table (List Item)
  shelves : Table (List Nat)
  states : Table State
  pending : List Nat

namespace Survey

def kernel (survey : Survey) (number : Nat) : List Item :=
  match survey.kernels.get? number with
  | some kernel => kernel
  | none => []

def shelfOf : List Item → Nat
  | [] => 0
  | item :: _ => item.rule

def shelf (survey : Survey) (number : Nat) : List Nat :=
  match survey.shelves.get? number with
  | some numbers => numbers
  | none => []

/-- Enter the state with the given kernel: an old one, whose lookaheads may grow, or a new one.
Gives the number of the state too. -/
def enter (survey : Survey) (kernel : List Item) : Survey × Nat :=
  let shelf := survey.shelf (shelfOf kernel)
  match shelf.find? fun number => sameKernel (survey.kernel number) kernel with
  | none =>
      let number := survey.count
      (⟨Nat.succ number, survey.kernels.insert number kernel,
        survey.shelves.insert (shelfOf kernel) (number :: shelf), survey.states,
        number :: survey.pending⟩, number)
  | some number =>
      let known := survey.kernel number
      match coversKernel known kernel with
      | true => (survey, number)
      | false =>
          let others := survey.pending.filter fun other => !Nat.beq other number
          (⟨survey.count, survey.kernels.insert number (widenKernel known kernel), survey.shelves,
            survey.states, others ++ [number]⟩, number)

/-- Follow the moves of one state, gathering its edges. -/
def enterAll : List Move → Survey → List (Symbol Nat Nat × Nat) →
    Survey × List (Symbol Nat Nat × Nat)
  | [], survey, edges => (survey, edges)
  | move :: moves, survey, edges =>
      match survey.enter move.kernel with
      | (later, number) => enterAll moves later ((move.symbol, number) :: edges)

def run (guide : Guide) : (fuel : Nat) → Survey → Survey
  | 0, survey => survey
  | fuel + 1, survey =>
      match survey.pending with
      | [] => survey
      | number :: pending =>
          let items := guide.closure (survey.kernel number)
          match enterAll (movesOf items) { survey with pending } [] with
          | (later, edges) =>
              run guide fuel { later with states := later.states.insert number ⟨items, edges⟩ }

end Survey

/-- The states of a grammar; state zero is where parsing begins. -/
structure Automaton where
  count : Nat
  states : Table State

/-- Build the automaton, visiting states at most `fuel` times. -/
def Automaton.build (rules : Rules Nat Nat) (fuel : Nat) : Automaton :=
  let goal : Item := ⟨0, 0, [.nonterminal rules.start], Lookaheads.singleton none⟩
  let survey := Survey.run (Guide.ofRules rules.list) fuel
    ⟨1, Table.empty.insert 0 [goal], Table.empty.insert 0 [0], .empty, [0]⟩
  ⟨survey.count, survey.states⟩

end ShaderReflection.Grammar

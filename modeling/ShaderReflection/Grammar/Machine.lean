import ShaderReflection.Grammar.Automaton

/-!
# The parsing machine

A stack machine driven by the automaton of a grammar. It is fed terminals, one at a time and then
the end of the input, and knows nothing of how they are read from a text. A reduction is carried
out only if the trees on the stack spell the body of the rule, and a tree is accepted only if it is
one of the start symbol. So every tree that the machine accepts follows the grammar, whatever the
automaton says.
-/

namespace ShaderReflection.Grammar

/-! ## What a state does -/

namespace State

/-- The state after a terminal or a nonterminal, if there is one. -/
def target? (state : State) (symbol : Symbol Nat Nat) : Option Nat :=
  (state.edges.find? fun edge => edge.1.same symbol).map Prod.snd

/-- The number of the rule that is complete before the lookahead. -/
def complete? (state : State) (ahead : Option Nat) : Option Nat :=
  (state.items.find? fun item => item.rest.isEmpty && item.ahead.contains ahead).map Item.rule

def accepted (state : State) : Lookaheads :=
  let shifted := state.edges.foldl (fun set edge =>
    match edge.1 with
    | .terminal letter => set.union (Lookaheads.singleton (some letter))
    | .nonterminal _ => set) Lookaheads.empty
  state.items.foldl (fun set item =>
    if item.rest.isEmpty then set.union item.ahead else set) shifted

end State

/-! ## Parsers -/

/-- A grammar with its automaton. -/
structure Parser (τ ν : Type) where
  rules : Rules τ ν
  automaton : Automaton

/-- A step of the machine. -/
inductive Action (τ ν : Type) where
  | shift (target : Nat)
  | reduce (rule : Rule τ ν)
  | accept

namespace Parser

variable {τ ν : Type} [Alphabet τ] [Alphabet ν]

/-- The parser of a grammar. No grammar in this library needs more than the given number of
visits. -/
def ofRules (rules : Rules τ ν) : Parser τ ν :=
  ⟨rules, Automaton.build rules.numbered 4096⟩

/-- The state with a given number. A number that is not in use has no items. -/
def state (parser : Parser τ ν) (number : Nat) : State :=
  (parser.automaton.states.get? number).getD ⟨[], []⟩

/-- What a state does before a lookahead; `none` if the lookahead is not acceptable. -/
def action (parser : Parser τ ν) (number : Nat) (ahead : Option τ) : Option (Action τ ν) :=
  let state := parser.state number
  match ahead.bind fun letter => state.target? (.terminal (Alphabet.number letter)) with
  | some target => some (.shift target)
  | none =>
      match state.complete? (ahead.map Alphabet.number) with
      | none => none
      | some 0 => some .accept
      | some (index + 1) => parser.rules.list[index]?.map .reduce

/-- The state after a nonterminal has been built on top of a state. -/
def goto (parser : Parser τ ν) (number : Nat) (letter : ν) : Option Nat :=
  (parser.state number).target? (.nonterminal (Alphabet.number letter))

def accepts (parser : Parser τ ν) (number : Nat) (terminal : τ) : Bool :=
  (parser.state number).accepted.contains (some (Alphabet.number terminal))

end Parser

/-! ## Stacks -/

/-- A finished tree and the state reached after it. -/
structure Frame (τ ν κ : Type) where
  state : Nat
  tree : Derivation τ ν κ

/-- The finished trees, the latest first. -/
abbrev Stack (τ ν κ : Type) := List (Frame τ ν κ)

namespace Stack

variable {τ ν κ : Type}

/-- The state on top; parsing begins in state zero. -/
def state : Stack τ ν κ → Nat
  | [] => 0
  | frame :: _ => frame.state

def trees (stack : Stack τ ν κ) : List (Derivation τ ν κ) :=
  (stack.map Frame.tree).reverse

end Stack

/-! ## Steps -/

/-- Why the machine stops without accepting. Only `unexpected` says something about the input; the
others would be faults of the automaton. -/
inductive Failure where
  | unexpected
  | underflow
  | noGoto
  | endless
deriving DecidableEq, Repr

/-- What the machine has come to when it has dealt with a lookahead: a terminal is on the stack,
or the whole input is accepted. -/
inductive Verdict (τ ν κ : Type) where
  | shifted (stack : Stack τ ν κ)
  | accepted (tree : Derivation τ ν κ)

namespace Parser

variable {τ ν κ : Type} [Alphabet τ] [Alphabet ν] [DecidableEq τ] [DecidableEq ν]

/-- Replace the trees of a rule's body on top of the stack by one tree. -/
def reduce (parser : Parser τ ν) (rule : Rule τ ν) (stack : Stack τ ν κ) :
    Except Failure (Stack τ ν κ) :=
  let count := rule.body.length
  let children := Stack.trees (stack.take count)
  let below := stack.drop count
  if children.map Derivation.symbol = rule.body then
    match parser.goto (Stack.state below) rule.head with
    | some target => .ok (⟨target, .node rule children⟩ :: below)
    | none => .error .noGoto
  else .error .underflow

/-- Reduce as long as the lookahead asks for it, then shift the terminal or accept. -/
def settle (parser : Parser τ ν) (ahead : Option (τ × κ)) :
    (fuel : Nat) → Stack τ ν κ → Except Failure (Verdict τ ν κ)
  | 0, _ => .error .endless
  | fuel + 1, stack =>
      match parser.action (Stack.state stack) (ahead.map Prod.fst) with
      | none => .error .unexpected
      | some (.shift target) =>
          match ahead with
          | some (terminal, token) => .ok (.shifted (⟨target, .leaf terminal token⟩ :: stack))
          | none => .error .unexpected
      | some (.reduce rule) =>
          match parser.reduce rule stack with
          | .ok smaller => parser.settle ahead fuel smaller
          | .error failure => .error failure
      | some .accept =>
          match stack with
          | [frame] =>
              if frame.tree.symbol = .nonterminal parser.rules.start then
                .ok (.accepted frame.tree)
              else .error .underflow
          | _ => .error .underflow

/-- Enough reductions for any stack: between two of them that shorten the stack there are at most
as many as there are rules. -/
def patience (parser : Parser τ ν) (stack : Stack τ ν κ) : Nat :=
  (stack.length + 2) * (parser.rules.list.length + 1)

/-- Deal with one terminal, or with the end of the input. -/
def feed (parser : Parser τ ν) (stack : Stack τ ν κ) (ahead : Option (τ × κ)) :
    Except Failure (Verdict τ ν κ) :=
  parser.settle ahead (parser.patience stack) stack

def run (parser : Parser τ ν) (stack : Stack τ ν κ) :
    List (τ × κ) → Except Failure (Derivation τ ν κ)
  | [] =>
      match parser.feed stack none with
      | .ok (.accepted tree) => .ok tree
      | .ok (.shifted _) => .error .unexpected
      | .error failure => .error failure
  | terminal :: rest =>
      match parser.feed stack (some terminal) with
      | .ok (.shifted later) => parser.run later rest
      | .ok (.accepted _) => .error .unexpected
      | .error failure => .error failure

end Parser

end ShaderReflection.Grammar

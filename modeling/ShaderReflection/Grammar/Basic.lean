/-!
# Context-free grammars

Symbols, rules and derivation trees over a finite alphabet of terminals and one of nonterminals.
A derivation tree is the common language of the two sides of a parser: the machine in
`ShaderReflection.Grammar.Machine` builds one, and `Derivation.Follows` says which trees a grammar
allows without mentioning any machine.
-/

namespace ShaderReflection.Grammar

/-! ## Alphabets -/

/-- A set of letters in which each letter has a number of its own. The numbers let a set of
letters be kept as the bits of a natural number. -/
class Alphabet (α : Type) where
  number : α → Nat
  number_injective : ∀ left right, number left = number right → left = right

/-! ## Symbols and rules -/

/-- A terminal, read from the input, or a nonterminal, built by a rule. -/
inductive Symbol (τ ν : Type) where
  | terminal (letter : τ)
  | nonterminal (letter : ν)
deriving DecidableEq, Repr

namespace Symbol

def numbered {τ ν : Type} [Alphabet τ] [Alphabet ν] : Symbol τ ν → Symbol Nat Nat
  | .terminal letter => .terminal (Alphabet.number letter)
  | .nonterminal letter => .nonterminal (Alphabet.number letter)

theorem numbered_injective {τ ν : Type} [Alphabet τ] [Alphabet ν] {left right : Symbol τ ν}
    (equal : left.numbered = right.numbered) : left = right := by
  cases left <;> cases right <;> simp only [numbered, terminal.injEq, nonterminal.injEq,
    reduceCtorEq] at equal ⊢ <;> exact Alphabet.number_injective _ _ equal

/-- Numbered symbols are equal when both are of one sort and have the same number. -/
def same : Symbol Nat Nat → Symbol Nat Nat → Bool
  | .terminal left, .terminal right => Nat.beq left right
  | .nonterminal left, .nonterminal right => Nat.beq left right
  | _, _ => false

theorem same_iff {left right : Symbol Nat Nat} : left.same right = true ↔ left = right := by
  cases left <;> cases right <;> simp [same]

end Symbol

/-- One way to build a nonterminal: the symbols that make it up, in order. -/
structure Rule (τ ν : Type) where
  head : ν
  body : List (Symbol τ ν)
deriving DecidableEq, Repr

/-- A start symbol and the rules. The order of the rules carries no meaning. -/
structure Rules (τ ν : Type) where
  start : ν
  list : List (Rule τ ν)

def Rules.numbered {τ ν : Type} [Alphabet τ] [Alphabet ν] (rules : Rules τ ν) : Rules Nat Nat where
  start := Alphabet.number rules.start
  list := rules.list.map fun rule =>
    ⟨Alphabet.number rule.head, rule.body.map Symbol.numbered⟩

/-! ## Optional parts -/

/-- A symbol in the body of a rule that has to be there, or that may be left out. -/
inductive Part (τ ν : Type) where
  | required (symbol : Symbol τ ν)
  | optional (symbol : Symbol τ ν)

namespace Part

variable {τ ν : Type}

def token (letter : τ) : Part τ ν := .required (.terminal letter)

def token? (letter : τ) : Part τ ν := .optional (.terminal letter)

def part (letter : ν) : Part τ ν := .required (.nonterminal letter)

def part? (letter : ν) : Part τ ν := .optional (.nonterminal letter)

/-- The bodies that arise by keeping or leaving out each optional part. -/
def bodies : List (Part τ ν) → List (List (Symbol τ ν))
  | [] => [[]]
  | .required symbol :: rest => (bodies rest).map (symbol :: ·)
  | .optional symbol :: rest => (bodies rest).map (symbol :: ·) ++ bodies rest

end Part

/-- The rules for a nonterminal that is made of the given parts. -/
def Rule.build {τ ν : Type} (head : ν) (parts : List (Part τ ν)) : List (Rule τ ν) :=
  (Part.bodies parts).map fun body => ⟨head, body⟩

/-! ## Derivation trees -/

/-- A tree of rule applications over tokens of type `κ`. -/
inductive Derivation (τ ν κ : Type) where
  | leaf (terminal : τ) (token : κ)
  | node (rule : Rule τ ν) (children : List (Derivation τ ν κ))

namespace Derivation

variable {τ ν κ : Type}

def symbol : Derivation τ ν κ → Symbol τ ν
  | .leaf terminal _ => .terminal terminal
  | .node rule _ => .nonterminal rule.head

mutual

/-- The tokens at the bottom of a tree, from left to right. -/
def leaves : Derivation τ ν κ → List (τ × κ)
  | .leaf terminal token => [(terminal, token)]
  | .node _ children => leavesOfAll children

def leavesOfAll : List (Derivation τ ν κ) → List (τ × κ)
  | [] => []
  | tree :: rest => tree.leaves ++ leavesOfAll rest

end

/-- Every node applies a rule of the grammar, and its children are the rule's body. -/
inductive Follows (rules : Rules τ ν) : Derivation τ ν κ → Prop
  | leaf (terminal : τ) (token : κ) : Follows rules (.leaf terminal token)
  | node (rule : Rule τ ν) (children : List (Derivation τ ν κ))
      (known : rule ∈ rules.list) (body : children.map symbol = rule.body)
      (below : ∀ child ∈ children, Follows rules child) :
      Follows rules (.node rule children)

end Derivation

end ShaderReflection.Grammar

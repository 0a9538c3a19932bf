import ShaderReflection.Grammar.Basic
import ShaderReflection.Grammar.Table

/-!
# What can come next

Sets of lookaheads, and for each nonterminal the terminals that can begin it and whether it can be
empty. Letters are given by their numbers.
-/

namespace ShaderReflection.Grammar

/-- A set of lookaheads, that is of terminals and the end of the input. Bit zero stands for the
end of the input and bit `n + 1` for the terminal with number `n`. -/
structure Lookaheads where
  bits : Nat
deriving DecidableEq, Repr

namespace Lookaheads

/-- The bit that stands for a terminal, or for the end of the input. -/
def position : Option Nat → Nat
  | none => 0
  | some terminal => terminal + 1

def empty : Lookaheads := ⟨0⟩

def singleton (ahead : Option Nat) : Lookaheads := ⟨Nat.shiftLeft 1 (position ahead)⟩

def union (left right : Lookaheads) : Lookaheads := ⟨Nat.lor left.bits right.bits⟩

def contains (set : Lookaheads) (ahead : Option Nat) : Bool :=
  Nat.beq (Nat.land (Nat.shiftRight set.bits (position ahead)) 1) 1

/-- Everything in `part` is in `whole`. -/
def covers (whole part : Lookaheads) : Bool :=
  Nat.beq (Nat.lor whole.bits part.bits) whole.bits

/-! ## Laws of lookaheads -/

theorem position_injective {left right : Option Nat} (equal : position left = position right) :
    left = right := by
  cases left <;> cases right <;> simp [position] at equal ⊢
  exact equal

theorem contains_eq_testBit (set : Lookaheads) (ahead : Option Nat) :
    set.contains ahead = set.bits.testBit (position ahead) := by
  have bit : Nat.land (Nat.shiftRight set.bits (position ahead)) 1 =
      set.bits / 2 ^ position ahead % 2 := by
    rw [Table.land_one]
    show (set.bits >>> position ahead) % 2 = _
    rw [Nat.shiftRight_eq_div_pow]
  rw [contains, bit, Table.beq_eq_decide, Nat.testBit_eq_decide_div_mod_eq]

@[simp] theorem contains_empty (ahead : Option Nat) : empty.contains ahead = false := by
  simp [contains_eq_testBit, empty]

@[simp] theorem contains_singleton (member ahead : Option Nat) :
    (singleton member).contains ahead = decide (ahead = member) := by
  rw [contains_eq_testBit, singleton]
  show ((1 : Nat) <<< position member).testBit (position ahead) = _
  rw [Nat.one_shiftLeft, Nat.testBit_two_pow]
  exact decide_eq_decide.mpr
    ⟨fun equal => (position_injective equal).symm, fun equal => equal ▸ rfl⟩

@[simp] theorem contains_union (left right : Lookaheads) (ahead : Option Nat) :
    (left.union right).contains ahead = (left.contains ahead || right.contains ahead) := by
  simp only [contains_eq_testBit, union]
  exact Nat.testBit_or left.bits right.bits (position ahead)

theorem contains_of_covers {whole part : Lookaheads} (covered : whole.covers part = true)
    {ahead : Option Nat} (member : part.contains ahead = true) : whole.contains ahead = true := by
  have same : whole.union part = whole := by
    rw [covers, Nat.beq_eq] at covered
    rw [union, covered]
  rw [← same, contains_union, member, Bool.or_true]

end Lookaheads

/-! ## Beginnings -/

/-- How the texts of a nonterminal begin: the terminals in front, and whether the text can be
empty. -/
structure Beginning where
  first : Lookaheads
  nullable : Bool

abbrev Beginnings := Table Beginning

namespace Beginnings

def find (table : Beginnings) (letter : Nat) : Beginning :=
  match table.get? letter with
  | some beginning => beginning
  | none => ⟨Lookaheads.empty, false⟩

/-- How a row of symbols begins when it is followed by `after`. -/
def front (table : Beginnings) (after : Beginning) : List (Symbol Nat Nat) → Beginning
  | [] => after
  | .terminal letter :: _ => ⟨Lookaheads.singleton (some letter), false⟩
  | .nonterminal letter :: rest =>
      match table.find letter with
      | ⟨first, false⟩ => ⟨first, false⟩
      | ⟨first, true⟩ =>
          match table.front after rest with
          | ⟨more, nullable⟩ => ⟨first.union more, nullable⟩

/-- The lookaheads at the front of a row of symbols that is followed by one of `ahead`. -/
def lookaheads (table : Beginnings) (row : List (Symbol Nat Nat)) (ahead : Lookaheads) :
    Lookaheads :=
  (table.front ⟨ahead, true⟩ row).first

/-- Add what one rule says about its head, and tell whether that was news. -/
def learn (progress : Beginnings × Bool) (rule : Rule Nat Nat) : Beginnings × Bool :=
  match progress.1.find rule.head, progress.1.front ⟨Lookaheads.empty, true⟩ rule.body with
  | ⟨known, wasNullable⟩, ⟨first, nullable⟩ =>
      match known.covers first && (wasNullable || !nullable) with
      | true => progress
      | false =>
          (progress.1.insert rule.head ⟨known.union first, wasNullable || nullable⟩, true)

/-- Read all rules until a round brings no news. A fact about a nonterminal travels at least one
rule further in each round, so as many rounds as there are rules are enough. -/
def settle (rules : List (Rule Nat Nat)) : (rounds : Nat) → Beginnings → Beginnings
  | 0, table => table
  | rounds + 1, table =>
      match rules.foldl learn (table, false) with
      | (later, true) => settle rules rounds later
      | (later, false) => later

/-- The beginnings of all nonterminals. The rules are read from the last to the first, because a
grammar usually names a part after the whole that it belongs to. -/
def ofRules (rules : List (Rule Nat Nat)) : Beginnings :=
  settle rules.reverse (rules.length + 1) .empty

end Beginnings

end ShaderReflection.Grammar

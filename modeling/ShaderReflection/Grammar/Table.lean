/-!
# Tables indexed by number

A finite map from natural numbers, kept as a binary tree: zero is at the root, `2 * n + 1` is where
`n` would be in the branch for odd numbers, and `2 * n + 2` where `n` would be in the other one.
The operations recurse on the tree and on fuel, so a table can be evaluated by the kernel as well
as run.
-/

namespace ShaderReflection.Grammar

/-- A finite map from numbers. -/
inductive Table (α : Type) where
  | empty
  | branch (value : Option α) (odd even : Table α)

namespace Table

variable {α : Type}

def get? : Table α → Nat → Option α
  | .empty, _ => none
  | .branch value odd even, number =>
      match Nat.beq number 0 with
      | true => value
      | false =>
          match Nat.beq (Nat.land number 1) 1 with
          | true => odd.get? (Nat.shiftRight (Nat.pred number) 1)
          | false => even.get? (Nat.shiftRight (Nat.pred number) 1)

/-- The parts of a table; an empty one has nothing in them. -/
def parts : Table α → Option α × Table α × Table α
  | .empty => (none, .empty, .empty)
  | .branch value odd even => (value, odd, even)

/-- Put a value at a number, which has to be smaller than the fuel. -/
def place (value : α) : (fuel number : Nat) → Table α → Table α
  | 0, _, table => table
  | fuel + 1, number, table =>
      match table.parts with
      | (root, odd, even) =>
          match Nat.beq number 0 with
          | true => .branch (some value) odd even
          | false =>
              let half := Nat.shiftRight (Nat.pred number) 1
              match Nat.beq (Nat.land number 1) 1 with
              | true => .branch root (place value fuel half odd) even
              | false => .branch root odd (place value fuel half even)

/-- Give a number a value, in place of any it had. -/
def insert (table : Table α) (number : Nat) (value : α) : Table α :=
  place value (Nat.succ number) number table

/-! ## Laws -/

@[simp] theorem get?_empty (number : Nat) : (empty : Table α).get? number = none := rfl

/-- The tests by which an operation finds its way, in terms of arithmetic. -/
theorem beq_eq_decide (left right : Nat) : Nat.beq left right = decide (left = right) := by
  rw [Bool.eq_iff_iff, Nat.beq_eq, decide_eq_true_iff]

theorem land_one (number : Nat) : Nat.land number 1 = number % 2 := Nat.and_one_is_mod number

theorem shiftRight_pred (number : Nat) :
    Nat.shiftRight (Nat.pred number) 1 = (number - 1) / 2 := by
  show (number - 1) >>> 1 = _
  rw [Nat.shiftRight_eq_div_pow]

theorem get?_eq_parts (table : Table α) (number : Nat) :
    table.get? number =
      if number = 0 then table.parts.1
      else if number % 2 = 1 then table.parts.2.1.get? ((number - 1) / 2)
      else table.parts.2.2.get? ((number - 1) / 2) := by
  cases table with
  | empty => simp [parts]
  | branch value left right =>
      simp only [get?, parts, beq_eq_decide, land_one, shiftRight_pred]
      by_cases isZero : number = 0
      · simp [isZero]
      · by_cases isOdd : number % 2 = 1
        · simp [isZero, isOdd]
        · simp [isZero, isOdd]

/-- After placing a value with enough fuel, the number has it and other numbers keep theirs. -/
theorem get?_place (value : α) {fuel number : Nat} (enough : number < fuel) (table : Table α)
    (other : Nat) :
    (place value fuel number table).get? other =
      if other = number then some value else table.get? other := by
  induction fuel generalizing number table other with
  | zero => omega
  | succ fuel induction =>
      rw [get?_eq_parts table other, get?_eq_parts (place value (fuel + 1) number table) other]
      simp only [place, beq_eq_decide, land_one, shiftRight_pred]
      by_cases isZero : number = 0
      · subst isZero
        by_cases otherIsZero : other = 0
        · simp [otherIsZero, parts]
        · simp [otherIsZero, parts]
      · have smaller : (number - 1) / 2 < fuel := by omega
        by_cases isOdd : number % 2 = 1
        · by_cases otherIsZero : other = 0
          · have different : ¬ 0 = number := fun equal => isZero equal.symm
            simp [isZero, isOdd, otherIsZero, parts, different]
          · by_cases otherIsOdd : other % 2 = 1
            · have sameHalf : (other - 1) / 2 = (number - 1) / 2 ↔ other = number := by omega
              simp [isZero, isOdd, otherIsZero, otherIsOdd, parts, induction smaller, sameHalf]
            · have different : ¬ other = number := by omega
              simp [isZero, isOdd, otherIsZero, otherIsOdd, parts, different]
        · by_cases otherIsZero : other = 0
          · have different : ¬ 0 = number := fun equal => isZero equal.symm
            simp [isZero, isOdd, otherIsZero, parts, different]
          · by_cases otherIsOdd : other % 2 = 1
            · have different : ¬ other = number := by omega
              simp [isZero, isOdd, otherIsZero, otherIsOdd, parts, different]
            · have sameHalf : (other - 1) / 2 = (number - 1) / 2 ↔ other = number := by omega
              simp [isZero, isOdd, otherIsZero, otherIsOdd, parts, induction smaller, sameHalf]

/-- The latest value counts, and other numbers keep theirs. -/
theorem get?_insert (table : Table α) (number other : Nat) (value : α) :
    (table.insert number value).get? other =
      if other = number then some value else table.get? other :=
  get?_place value (Nat.lt_succ_self number) table other

end Table

end ShaderReflection.Grammar

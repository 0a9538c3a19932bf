import Mathlib.Algebra.Order.BigOperators.Group.List
import Mathlib.Order.CompletePartialOrder
import Mathlib.Tactic.Abel
import ShaderReflection.Proofs.Tree.RightHandSide

/-!
# Rules and right-hand sides

The rules of the grammar are written for a parser: an optional part makes two rules of one, a
repetition has a nonterminal of its own, and a nonterminal may be there only as a step on the way.
A reader of a tree sees none of this. What a nonterminal stands for in a tree is a language of rows
of children, and the rules are equations between such languages. The right-hand sides of
`ShaderReflection.Proofs.Tree.RightHandSide` solve the equations (`standard_eq`), and no other
solution is smaller (`standard_le`). Together the two say that rules and right-hand sides describe
the same rows.
-/

namespace ShaderReflection.Tree

open ShaderReflection.Grammar ShaderReflection.Wgsl Expansion Computability

abbrev Rows : Type := Language (Grammar.Symbol Terminal Kind)

/-! ## Meanings of rules -/

/-- What each nonterminal contributes to the node above the rules that build it. -/
abbrev Meaning := Nonterminal → Rows

namespace Meaning

variable (meaning : Meaning)

/-- A nonterminal that is shown is one child, whatever it is made of. -/
def ofSymbol : Grammar.Symbol Terminal Nonterminal → Rows
  | .terminal terminal => (token terminal).matches'
  | .nonterminal letter =>
      match kindOf? letter with
      | some kind => (part kind).matches'
      | none => meaning letter

def ofBody (body : List (Grammar.Symbol Terminal Nonterminal)) : Rows :=
  (body.map meaning.ofSymbol).prod

def ofPart : Part Terminal Nonterminal → Rows
  | .required symbol => meaning.ofSymbol symbol
  | .optional symbol => 1 + meaning.ofSymbol symbol

/-- The rows that the rules of a nonterminal describe. -/
def derived (head : Nonterminal) : List (Rule Terminal Nonterminal) → Rows
  | [] => 0
  | rule :: rest =>
      if rule.head = head then meaning.ofBody rule.body + derived head rest else derived head rest

variable {meaning} {head : Nonterminal}

theorem derived_le_iff {list : List (Rule Terminal Nonterminal)} {rows : Rows} :
    meaning.derived head list ≤ rows ↔
      ∀ rule ∈ list, rule.head = head → meaning.ofBody rule.body ≤ rows := by
  induction list with
  | nil => simp [derived]
  | cons rule list induction =>
      rw [derived, List.forall_mem_cons, ← induction]
      split
      · rename_i isHead
        rw [add_le_iff]
        simp only [isHead, true_imp_iff]
      · rename_i isOther
        simp only [isOther, false_imp_iff, true_and]

theorem derived_append (left right : List (Rule Terminal Nonterminal)) :
    meaning.derived head (left ++ right) =
      meaning.derived head left + meaning.derived head right := by
  induction left with
  | nil => rw [List.nil_append, derived, zero_add]
  | cons rule left induction =>
      simp only [List.cons_append, derived, induction]
      split
      · rw [add_assoc]
      · rfl

/-- Keeping or leaving out each optional part comes to a product of sums. -/
theorem derived_bodies (parts : List (Part Terminal Nonterminal)) (before : Rows)
    (rows : Rows) :
    (∀ body ∈ Part.bodies parts, before * meaning.ofBody body ≤ rows) ↔
      before * (parts.map meaning.ofPart).prod ≤ rows := by
  induction parts generalizing before with
  | nil => simp [Part.bodies, ofBody]
  | cons part parts induction =>
      cases part with
      | required symbol =>
          have kept := induction (before * meaning.ofSymbol symbol)
          simpa [Part.bodies, ofBody, ofPart, mul_assoc] using kept
      | optional symbol =>
          have kept := induction (before * meaning.ofSymbol symbol)
          have left := induction before
          simp only [ofBody, mul_assoc] at kept left
          simp only [Part.bodies, ofBody, ofPart, List.mem_append, List.mem_map, or_imp,
            forall_and, List.map_cons, List.prod_cons, add_mul, one_mul, mul_add, add_le_iff,
            forall_exists_index, and_imp, forall_apply_eq_imp_iff₂, left, kept]
          exact and_comm

theorem derived_build (other : Nonterminal) (parts : List (Part Terminal Nonterminal)) :
    meaning.derived head (Rule.build other parts) =
      if other = head then (parts.map meaning.ofPart).prod else 0 := by
  apply eq_of_forall_ge_iff
  intro rows
  have bodies := @derived_bodies meaning parts 1 rows
  simp only [one_mul] at bodies
  rw [derived_le_iff, Rule.build, List.forall_mem_map]
  split
  · rename_i isHead
    simpa only [isHead, true_imp_iff] using bodies
  · rename_i isOther
    simp [isOther]

theorem derived_flatten_cons (other : Nonterminal) (parts : List (Part Terminal Nonterminal))
    (lists : List (List (Rule Terminal Nonterminal))) :
    meaning.derived head (Rule.build other parts :: lists).flatten =
      if other = head then (parts.map meaning.ofPart).prod + meaning.derived head lists.flatten
      else meaning.derived head lists.flatten := by
  rw [List.flatten_cons, derived_append, derived_build]
  split
  · rfl
  · rw [zero_add]

/-- Rules with the same head describe more where the parts that are not shown mean more. -/
theorem derived_mono {lower upper : Meaning} {list : List (Rule Terminal Nonterminal)}
    (below : ∀ rule ∈ list, rule.head = head → ∀ letter, .nonterminal letter ∈ rule.body →
      kindOf? letter = none → lower letter ≤ upper letter) :
    lower.derived head list ≤ upper.derived head list := by
  rw [derived_le_iff]
  intro rule isRule isHead
  refine le_trans ?_ (derived_le_iff.mp le_rfl rule isRule isHead)
  apply List.prod_le_prod'
  intro symbol isSymbol
  cases symbol with
  | terminal terminal => exact le_rfl
  | nonterminal letter =>
      simp only [ofSymbol]
      split
      · exact le_rfl
      · rename_i isHidden
        exact below rule isRule isHead letter isSymbol isHidden

/-- All rules hold of a meaning. -/
def Closed (meaning : Meaning) : Prop :=
  ∀ rule ∈ rules.list, meaning.ofBody rule.body ≤ meaning rule.head

theorem Closed.derived_le (closed : meaning.Closed) (head : Nonterminal) :
    meaning.derived head rules.list ≤ meaning head := by
  rw [derived_le_iff]
  rintro rule isRule rfl
  exact closed rule isRule

end Meaning

/-! ## The right-hand sides as a meaning -/

theorem matches_mul (left right : Expansion) :
    (left * right).matches' = left.matches' * right.matches' :=
  rfl

theorem matches_maybe (inner : Expansion) : (maybe inner).matches' = 1 + inner.matches' :=
  rfl

theorem matches_oneOf (list : List Expansion) :
    (oneOf list).matches' = (list.map RegularExpression.matches').sum := by
  induction list with
  | nil => rfl
  | cons first list induction =>
      rw [List.map_cons, List.sum_cons, ← induction]
      rfl

theorem one_add_several (inner : Expansion) :
    1 + (several inner).matches' = (many inner).matches' :=
  one_add_mul_kstar

theorem matches_several (inner : Expansion) :
    (several inner).matches' = (many inner).matches' * inner.matches' :=
  (Language.mul_self_kstar_comm inner.matches').symm

/-- What a nonterminal that is not shown stands for. -/
def hiddenPart : Nonterminal → Expansion
  | .globalItem => globalItem
  | .globalItems => several globalItem
  | .attributes | .attributeRun => attributes
  | .attributeArguments => listed expression
  | .constantKeyword => constantKeyword
  | .predeclaredType => token .typeName
  | .templateList => templateList
  | .templateArgument => templateArgument
  | .expression => expression
  | .unary => unary
  | .postfixed => postfixed
  | .primary => primary
  | .moreNames => several (further (part .identifier))
  | .moreArguments => several (further expression)
  | .moreMembers => several (further (part .structMember))
  | .moreParameters => several (further (part .parameter))
  | .moreTemplateArguments => several (further templateArgument)
  | .blockParts => several blockPart
  | _ => 0

/-- A nonterminal that is shown means the children of its node. -/
def standard : Meaning := fun letter =>
  match kindOf? letter with
  | some kind => (rightHandSide kind).matches'
  | none => (hiddenPart letter).matches'

theorem standard_eq (letter : Nonterminal) :
    standard letter = standard.derived letter rules.list := by
  simp only [rules, moduleRules, attributeRules, structureRules, functionRules, variableRules,
    typeRules, expressionRules, leafRules, Meaning.derived_append, Meaning.derived_flatten_cons,
    List.flatten_nil, Meaning.derived]
  cases letter
  all_goals
    simp only [↓reduceIte, reduceCtorEq, zero_add, add_zero, List.map_cons, List.map_nil,
      List.prod_cons, List.prod_nil, mul_one, Part.token, Part.token?, Part.part, Part.part?,
      Meaning.ofPart, Meaning.ofSymbol, kindOf?, standard, hiddenPart, rightHandSide,
      attributes, listed, further, matches_mul, matches_maybe, one_add_several, mul_assoc]
  -- What is left are the nonterminals with several rules.
  case globalItems | attributeRun | moreNames | moreArguments | moreMembers | moreParameters |
      moreTemplateArguments => exact matches_several _
  all_goals
    simp only [globalItem, constantKeyword, templateList, templateArgument, primary, postfixed,
      unary, expression, initializer, blockPart, variableName, listed, further, matches_several,
      matches_oneOf, matches_mul, matches_maybe, List.map_cons, List.map_nil, List.sum_cons,
      List.sum_nil, mul_add, add_mul, one_mul, mul_one, add_zero, mul_assoc]
  case globalVariableDeclaration | globalConstantDeclaration | attributeUse | variableQualifier |
      argumentList => abel

/-! ## The least meaning -/

def repeats : Nonterminal → Bool
  | .globalItems | .attributeRun | .moreNames | .moreArguments | .moreMembers | .moreParameters
  | .moreTemplateArguments | .blockParts => true
  | _ => false

/-- How deep the nonterminals that are not shown are nested in each other. -/
def depth : Nonterminal → Nat
  | .postfixed | .moreTemplateArguments | .attributes | .globalItems => 1
  | .unary | .templateList => 2
  | .expression => 3
  | .moreArguments => 4
  | .attributeArguments => 5
  | letter => if (kindOf? letter).isSome then 6 else 0

theorem depth_lt {rule : Rule Terminal Nonterminal} (isRule : rule ∈ rules.list)
    (single : repeats rule.head = false) {letter : Nonterminal}
    (isPart : .nonterminal letter ∈ rule.body) (isHidden : kindOf? letter = none) :
    depth letter < depth rule.head := by
  have nested : ∀ rule ∈ rules.list, repeats rule.head = false → ∀ symbol ∈ rule.body,
      (match symbol with
      | .terminal _ => true
      | .nonterminal letter => (kindOf? letter).isSome || decide (depth letter < depth rule.head))
        = true := by
    decide +kernel
  have found := nested rule isRule single _ isPart
  simpa [isHidden] using found

/-- A set of rows that one more step never leaves holds all repetitions of the step. -/
theorem several_le {inner : Expansion} {step rows : Rows} (isStep : inner.matches' ≤ step)
    (grows : (1 + rows) * step ≤ rows) : (several inner).matches' ≤ rows := by
  have stays : (1 + rows) * inner.matches' ≤ rows :=
    le_trans (mul_le_mul_right isStep (1 + rows)) grows
  have all : (many inner).matches' ≤ 1 + rows :=
    kstar_le_of_mul_le_left le_self_add (le_trans stays le_add_self)
  rw [matches_several]
  exact le_trans (mul_le_mul_left all inner.matches') stays

section Least

variable {meaning : Meaning} (closed : meaning.Closed)
include closed

/-- A repetition is in a closed meaning if what it repeats is. -/
theorem standard_le_of_repeats {letter : Nonterminal} (repeated : repeats letter = true)
    (below : ∀ other, depth other < depth letter → standard other ≤ meaning other) :
    standard letter ≤ meaning letter := by
  have steps := closed.derived_le letter
  simp only [rules, moduleRules, attributeRules, structureRules, functionRules, variableRules,
    typeRules, expressionRules, leafRules, Meaning.derived_append, Meaning.derived_flatten_cons,
    List.flatten_nil, Meaning.derived] at steps
  cases letter
  all_goals first | exact absurd repeated Bool.false_ne_true | skip
  all_goals
    simp only [↓reduceIte, reduceCtorEq, zero_add, add_zero, List.map_cons, List.map_nil,
      List.prod_cons, List.prod_nil, mul_one, Part.token, Part.part, Part.part?, Meaning.ofPart,
      Meaning.ofSymbol, kindOf?] at steps
  case globalItems => exact several_le (below .globalItem (by decide)) steps
  case attributeRun | moreNames | moreMembers | moreParameters => exact several_le le_rfl steps
  case moreArguments =>
    exact several_le (mul_le_mul_right (below .expression (by decide)) _) steps
  case moreTemplateArguments =>
    exact several_le (mul_le_mul_right (below .templateArgument (by decide)) _) steps
  case blockParts =>
    rw [← mul_add] at steps
    apply several_le _ steps
    simp only [blockPart, matches_oneOf, List.map_cons, List.map_nil, List.sum_cons, List.sum_nil,
      add_zero, le_refl]

/-- No meaning that is closed under the rules is smaller than the right-hand sides. -/
theorem standard_le (letter : Nonterminal) : standard letter ≤ meaning letter := by
  generalize isDepth : depth letter = bound
  induction bound using Nat.strong_induction_on generalizing letter with
  | _ bound induction =>
      subst isDepth
      have below : ∀ other, depth other < depth letter → standard other ≤ meaning other :=
        fun other less => induction (depth other) less other rfl
      cases repeated : repeats letter with
      | true => exact standard_le_of_repeats closed repeated below
      | false =>
          rw [standard_eq]
          refine le_trans (Meaning.derived_mono ?_) (closed.derived_le letter)
          rintro rule isRule rfl other isPart isHidden
          exact below other (depth_lt isRule repeated isPart isHidden)

end Least

theorem standard_closed : standard.Closed := by
  intro rule isRule
  rw [standard_eq rule.head]
  exact Meaning.derived_le_iff.mp le_rfl rule isRule rfl

end ShaderReflection.Tree

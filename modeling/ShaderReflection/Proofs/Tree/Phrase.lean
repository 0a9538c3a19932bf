import ShaderReflection.Proofs.Tree.Splicing
import ShaderReflection.Tree.Parse

/-!
# Phrases

A phrase is a syntax tree without positions: tokens, and nodes that have a kind. It derives from
the grammar if the children of every node are in the right-hand side of its kind. Derivations of
the rules and phrases that derive are two views of the same trees: each derivation shows phrases
that derive (`phrases_derive`), and each phrase that derives is shown by a derivation
(`Phrase.Derives.realised`). The nodes of a derivation are those of its phrases (`forest_eq`).
-/

namespace ShaderReflection.Tree

open ShaderReflection.Grammar ShaderReflection.Wgsl

variable {κ : Type}

inductive Phrase (κ : Type) where
  | leaf (terminal : Terminal) (token : κ)
  | node (kind : Kind) (children : List (Phrase κ))

namespace Phrase

/-- What a phrase is as a child of another. -/
def symbol : Phrase κ → Grammar.Symbol Terminal Kind
  | leaf terminal _ => .terminal terminal
  | node kind _ => .nonterminal kind

mutual

def leaves : Phrase κ → List (Terminal × κ)
  | leaf terminal token => [(terminal, token)]
  | node _ children => leavesOfAll children

def leavesOfAll : List (Phrase κ) → List (Terminal × κ)
  | [] => []
  | phrase :: rest => phrase.leaves ++ leavesOfAll rest

end

/-- The children of every node are in the right-hand side of its kind. -/
inductive Derives : Phrase κ → Prop
  | leaf (terminal : Terminal) (token : κ) : Derives (.leaf terminal token)
  | node (kind : Kind) (children : List (Phrase κ))
      (isRow : children.map symbol ∈ (rightHandSide kind).matches')
      (below : ∀ child ∈ children, Derives child) : Derives (.node kind children)

mutual

/-- Whether a phrase derives, by matching the children of each node. -/
def derives : Phrase κ → Bool
  | leaf _ _ => true
  | node kind children => (rightHandSide kind).rmatch (children.map symbol) && deriveAll children

def deriveAll : List (Phrase κ) → Bool
  | [] => true
  | phrase :: rest => phrase.derives && deriveAll rest

end

mutual

theorem derives_iff : (phrase : Phrase κ) → (phrase.derives = true ↔ phrase.Derives)
  | leaf terminal token => by
      simp only [derives, true_iff]
      exact .leaf terminal token
  | node kind children => by
      rw [derives, Bool.and_eq_true, RegularExpression.rmatch_iff_matches', deriveAll_iff]
      constructor
      · rintro ⟨isRow, below⟩
        exact .node kind children isRow below
      · rintro (_ | ⟨_, _, isRow, below⟩)
        exact ⟨isRow, below⟩

theorem deriveAll_iff : (list : List (Phrase κ)) →
    (deriveAll list = true ↔ ∀ phrase ∈ list, phrase.Derives)
  | [] => by simp [deriveAll]
  | phrase :: rest => by
      rw [deriveAll, Bool.and_eq_true, derives_iff phrase, deriveAll_iff rest,
        List.forall_mem_cons]

end

instance (phrase : Phrase κ) : Decidable phrase.Derives :=
  decidable_of_iff _ phrase.derives_iff

/-- A derivation tree of the grammar. -/
structure IsModule (phrase : Phrase κ) : Prop where
  derives : phrase.Derives
  isTop : phrase.symbol = .nonterminal .translationUnit

theorem leavesOfAll_append (left right : List (Phrase κ)) :
    leavesOfAll (left ++ right) = leavesOfAll left ++ leavesOfAll right := by
  induction left with
  | nil => rfl
  | cons phrase left induction =>
      rw [List.cons_append, leavesOfAll, induction, leavesOfAll, List.append_assoc]

end Phrase

/-! ## The phrases of a derivation -/

/-- Put phrases under a node, if their nonterminal is shown. -/
def Phrase.wrap (head : Nonterminal) (parts : List (Phrase κ)) : List (Phrase κ) :=
  match kindOf? head with
  | some kind => [.node kind parts]
  | none => parts

mutual

/-- The phrases that a derivation contributes to the node above it. -/
def phrases : Derivation Terminal Nonterminal κ → List (Phrase κ)
  | .leaf terminal token => [.leaf terminal token]
  | .node rule children => Phrase.wrap rule.head (phrasesOfAll children)

def phrasesOfAll : List (Derivation Terminal Nonterminal κ) → List (Phrase κ)
  | [] => []
  | tree :: rest => phrases tree ++ phrasesOfAll rest

end

theorem Phrase.leavesOfAll_wrap (head : Nonterminal) (parts : List (Phrase κ)) :
    leavesOfAll (wrap head parts) = leavesOfAll parts := by
  rw [wrap]
  split
  · simp only [leavesOfAll, leaves, List.append_nil]
  · rfl

mutual

theorem leavesOfAll_phrases : (tree : Derivation Terminal Nonterminal κ) →
    Phrase.leavesOfAll (phrases tree) = tree.leaves
  | .leaf terminal token => rfl
  | .node rule children => by
      rw [phrases, Phrase.leavesOfAll_wrap, leavesOfAll_phrasesOfAll, Derivation.leaves]

theorem leavesOfAll_phrasesOfAll : (trees : List (Derivation Terminal Nonterminal κ)) →
    Phrase.leavesOfAll (phrasesOfAll trees) = Derivation.leavesOfAll trees
  | [] => rfl
  | tree :: rest => by
      rw [phrasesOfAll, Phrase.leavesOfAll_append, leavesOfAll_phrases,
        leavesOfAll_phrasesOfAll, Derivation.leavesOfAll]

end

theorem leaves_of_phrases {tree : Derivation Terminal Nonterminal κ} {phrase : Phrase κ}
    (shown : phrases tree = [phrase]) : tree.leaves = phrase.leaves := by
  rw [← leavesOfAll_phrases, shown, Phrase.leavesOfAll, Phrase.leavesOfAll, List.append_nil]

/-! ## Derivations show phrases that derive -/

/-- The phrases of a row of derivations are what the symbols of the row stand for. -/
theorem symbols_mem_ofBody {trees : List (Derivation Terminal Nonterminal κ)}
    (each : ∀ tree ∈ trees,
      (phrases tree).map Phrase.symbol ∈ standard.ofSymbol tree.symbol) :
    (phrasesOfAll trees).map Phrase.symbol ∈
      standard.ofBody (trees.map Derivation.symbol) := by
  induction trees with
  | nil => exact Language.mem_one _ |>.mpr rfl
  | cons tree trees induction =>
      have first := each tree List.mem_cons_self
      have rest := induction fun other isOther => each other (List.mem_cons_of_mem _ isOther)
      rw [phrasesOfAll, List.map_append, List.map_cons, Meaning.ofBody, List.map_cons,
        List.prod_cons]
      exact Language.append_mem_mul first rest

theorem mem_phrasesOfAll {phrase : Phrase κ} {trees : List (Derivation Terminal Nonterminal κ)} :
    phrase ∈ phrasesOfAll trees ↔ ∃ tree ∈ trees, phrase ∈ phrases tree := by
  induction trees with
  | nil => simp [phrasesOfAll]
  | cons tree trees induction =>
      rw [phrasesOfAll, List.mem_append, induction, List.exists_mem_cons_iff]

theorem phrases_derive {tree : Derivation Terminal Nonterminal κ} (follows : tree.Follows rules) :
    (phrases tree).map Phrase.symbol ∈ standard.ofSymbol tree.symbol ∧
      ∀ phrase ∈ phrases tree, phrase.Derives := by
  induction follows with
  | leaf terminal token =>
      refine ⟨rfl, ?_⟩
      simp only [phrases, List.mem_singleton, forall_eq]
      exact .leaf terminal token
  | node rule children isRule isBody below induction =>
      have row := symbols_mem_ofBody fun child isChild => (induction child isChild).1
      rw [isBody] at row
      have isPart : (phrasesOfAll children).map Phrase.symbol ∈ standard rule.head :=
        standard_closed rule isRule row
      have each : ∀ phrase ∈ phrasesOfAll children, phrase.Derives := by
        intro phrase isPhrase
        rcases mem_phrasesOfAll.mp isPhrase with ⟨child, isChild, isShown⟩
        exact (induction child isChild).2 phrase isShown
      simp only [phrases, Phrase.wrap, Derivation.symbol, Meaning.ofSymbol]
      cases isKind : kindOf? rule.head with
      | none => exact ⟨isPart, each⟩
      | some kind =>
          simp only [standard, isKind] at isPart
          refine ⟨rfl, ?_⟩
          simp only [List.mem_singleton, forall_eq]
          exact .node kind _ isPart each

/-! ## Phrases that derive are shown by derivations -/

/-- Every nonterminal of the right kind has a derivation that shows the phrase. -/
def Phrase.Realised : Phrase κ → Prop
  | leaf _ _ => True
  | node kind children => ∀ letter, kindOf? letter = some kind →
      ∃ tree : Derivation Terminal Nonterminal κ, tree.Follows rules ∧
        tree.symbol = .nonterminal letter ∧ phrases tree = [.node kind children]

/-- The rows for which a nonterminal has a derivation, whatever realised phrases stand in them. -/
def realisedRows (κ : Type) : Meaning := fun letter =>
  {row | ∀ parts : List (Phrase κ), parts.map Phrase.symbol = row →
    (∀ phrase ∈ parts, phrase.Realised) →
    ∃ (rule : Rule Terminal Nonterminal) (children : List (Derivation Terminal Nonterminal κ)),
      (Derivation.node rule children).Follows rules ∧ rule.head = letter ∧
        phrasesOfAll children = parts}

theorem exists_derivation_ofSymbol {symbol : Grammar.Symbol Terminal Nonterminal}
    {parts : List (Phrase κ)}
    (isRow : parts.map Phrase.symbol ∈ (realisedRows κ).ofSymbol symbol)
    (realised : ∀ phrase ∈ parts, phrase.Realised) :
    ∃ tree : Derivation Terminal Nonterminal κ, tree.Follows rules ∧ tree.symbol = symbol ∧
      phrases tree = parts := by
  cases symbol with
  | terminal terminal =>
      rcases List.map_eq_singleton_iff.mp isRow with ⟨phrase, rfl, isTerminal⟩
      cases phrase with
      | leaf letter token =>
          cases isTerminal
          exact ⟨.leaf terminal token, .leaf terminal token, rfl, rfl⟩
      | node kind children => cases isTerminal
  | nonterminal letter =>
      simp only [Meaning.ofSymbol] at isRow
      cases isKind : kindOf? letter with
      | none =>
          simp only [isKind] at isRow
          rcases isRow parts rfl realised with ⟨rule, children, follows, rfl, shown⟩
          refine ⟨.node rule children, follows, rfl, ?_⟩
          rw [phrases, Phrase.wrap, isKind]
          exact shown
      | some kind =>
          simp only [isKind] at isRow
          rcases List.map_eq_singleton_iff.mp isRow with ⟨phrase, rfl, isNode⟩
          cases phrase with
          | leaf letter token => cases isNode
          | node kind children =>
              cases isNode
              exact realised _ List.mem_cons_self letter isKind

theorem exists_derivations_ofBody {body : List (Grammar.Symbol Terminal Nonterminal)}
    {parts : List (Phrase κ)}
    (isRow : parts.map Phrase.symbol ∈ (realisedRows κ).ofBody body)
    (realised : ∀ phrase ∈ parts, phrase.Realised) :
    ∃ trees : List (Derivation Terminal Nonterminal κ), (∀ tree ∈ trees, tree.Follows rules) ∧
      trees.map Derivation.symbol = body ∧ phrasesOfAll trees = parts := by
  induction body generalizing parts with
  | nil =>
      have isEmpty : parts = [] := List.map_eq_nil_iff.mp isRow
      subst isEmpty
      exact ⟨[], by simp, rfl, rfl⟩
  | cons symbol body induction =>
      rw [Meaning.ofBody, List.map_cons, List.prod_cons] at isRow
      rcases Language.mem_mul.mp isRow with ⟨front, isFront, back, isBack, whole⟩
      rcases List.map_eq_append_iff.mp whole.symm with ⟨first, rest, rfl, rfl, rfl⟩
      rcases List.forall_mem_append.mp realised with ⟨realisedFirst, realisedRest⟩
      rcases exists_derivation_ofSymbol isFront realisedFirst with ⟨tree, follows, rfl, shown⟩
      rcases induction isBack realisedRest with ⟨trees, follow, rfl, shownRest⟩
      refine ⟨tree :: trees, List.forall_mem_cons.mpr ⟨follows, follow⟩, rfl, ?_⟩
      rw [phrasesOfAll, shown, shownRest]

theorem realisedRows_closed : (realisedRows κ).Closed := by
  intro rule isRule row isRow parts isParts realised
  subst isParts
  rcases exists_derivations_ofBody isRow realised with ⟨trees, follow, isBody, shown⟩
  exact ⟨rule, trees, .node rule trees isRule isBody follow, rfl, shown⟩

theorem Phrase.Derives.realised {phrase : Phrase κ} (derives : phrase.Derives) :
    phrase.Realised := by
  induction derives with
  | leaf terminal token => trivial
  | node kind children isRow below induction =>
      intro letter isKind
      have isPart : children.map symbol ∈ standard letter := by
        simp only [standard, isKind]
        exact isRow
      rcases standard_le realisedRows_closed letter isPart children rfl induction with
        ⟨rule, trees, follows, rfl, shown⟩
      refine ⟨.node rule trees, follows, rfl, ?_⟩
      rw [phrases, wrap, isKind, shown]

theorem Phrase.IsModule.exists_derivation {phrase : Phrase κ} (isModule : phrase.IsModule) :
    ∃ tree : Derivation Terminal Nonterminal κ, tree.Follows rules ∧
      tree.symbol = .nonterminal rules.start ∧ phrases tree = [phrase] := by
  have realised := isModule.derives.realised
  have isTop := isModule.isTop
  cases phrase with
  | leaf terminal token => cases isTop
  | node kind children =>
      cases isTop
      exact realised .translationUnit rfl

theorem exists_phrase {tree : Derivation Terminal Nonterminal κ} (follows : tree.Follows rules)
    (isStart : tree.symbol = .nonterminal rules.start) :
    ∃ phrase : Phrase κ, phrases tree = [phrase] ∧ phrase.IsModule := by
  rcases phrases_derive follows with ⟨isRow, derive⟩
  rw [isStart] at isRow
  rcases List.map_eq_singleton_iff.mp isRow with ⟨phrase, shown, isTop⟩
  exact ⟨phrase, shown, derive phrase (by simp [shown]), isTop⟩

/-! ## The nodes of a phrase -/

mutual

def Phrase.toNode : Phrase Token → Node
  | leaf terminal lexeme => .token (.known terminal) lexeme.span
  | node kind children => .named (.known kind) (Node.cover (toNodes children)) (toNodes children)

def Phrase.toNodes : List (Phrase Token) → List Node
  | [] => []
  | phrase :: rest => phrase.toNode :: toNodes rest

end

theorem Phrase.toNodes_eq_map (list : List (Phrase Token)) :
    toNodes list = list.map toNode := by
  induction list with
  | nil => rfl
  | cons phrase list induction => rw [toNodes, induction, List.map_cons]

theorem wrap_toNodes (head : Nonterminal) (parts : List (Phrase Token)) :
    Node.wrap head (Phrase.toNodes parts) = Phrase.toNodes (Phrase.wrap head parts) := by
  cases isKind : kindOf? head with
  | none => simp only [Node.wrap, Phrase.wrap, isKind]
  | some kind => simp only [Node.wrap, Phrase.wrap, isKind, Phrase.toNodes, Phrase.toNode]

mutual

theorem forest_eq : (tree : Derivation Terminal Nonterminal Token) →
    Node.forest tree = Phrase.toNodes (phrases tree)
  | .leaf terminal lexeme => rfl
  | .node rule children => by
      rw [Node.forest, forestAll_eq, wrap_toNodes, phrases]

theorem forestAll_eq : (trees : List (Derivation Terminal Nonterminal Token)) →
    Node.forestAll trees = Phrase.toNodes (phrasesOfAll trees)
  | [] => rfl
  | tree :: rest => by
      rw [Node.forestAll, forest_eq, forestAll_eq, phrasesOfAll]
      simp only [Phrase.toNodes_eq_map, List.map_append]

end

theorem ofDerivation_eq {tree : Derivation Terminal Nonterminal Token} {phrase : Phrase Token}
    (shown : phrases tree = [phrase]) : Node.ofDerivation tree = phrase.toNode := by
  simp only [Node.ofDerivation, forest_eq, shown, Phrase.toNodes]

end ShaderReflection.Tree

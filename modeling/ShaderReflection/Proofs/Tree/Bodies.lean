import ShaderReflection.Proofs.Tree.Covering

/-!
# Bodies of functions

A function ends with its body, which stands between braces. The text of bodies is found nowhere
else (`exists_function_of_leaf`).
-/

namespace ShaderReflection.Tree

open ShaderReflection.Grammar ShaderReflection.Wgsl ShaderReflection.Text

/-- A span from the opening to the closing brace of the body of a function. -/
def SyntaxTree.IsBody (tree : SyntaxTree) (span : Span) : Prop :=
  ∃ function ∈ tree.root.walk, function.kind? = some .functionDeclaration ∧
    ∃ body ∈ function.children, body.kind? = some .compoundStatement ∧
      body.span tree.source = span

instance (tree : SyntaxTree) (span : Span) : Decidable (tree.IsBody span) :=
  inferInstanceAs (Decidable (∃ function ∈ tree.root.walk,
    function.kind? = some .functionDeclaration ∧ ∃ body ∈ function.children,
      body.kind? = some .compoundStatement ∧ body.span tree.source = span))

namespace Phrase

variable {κ : Type}

/-! ## Functions and their bodies -/

/-- What stands between two braces. -/
def body (opening : κ) (inner : List (Phrase κ)) (closing : κ) : Phrase κ :=
  .node .compoundStatement (.leaf .leftBrace opening :: (inner ++ [.leaf .rightBrace closing]))

def function (parts : List (Phrase κ)) (body : Phrase κ) : Phrase κ :=
  .node .functionDeclaration (parts ++ [body])

theorem leaves_body (opening : κ) (inner : List (Phrase κ)) (closing : κ) :
    (body opening inner closing).leaves =
      (.leftBrace, opening) :: (leavesOfAll inner ++ [(.rightBrace, closing)]) := by
  simp only [body, leaves, leavesOfAll, leavesOfAll_append, List.singleton_append, List.append_nil]

theorem leaves_function (parts : List (Phrase κ)) (body : Phrase κ) :
    (function parts body).leaves = leavesOfAll parts ++ body.leaves := by
  simp only [function, leaves, leavesOfAll, leavesOfAll_append, List.append_nil]

/-- The text of a body, and what it may stand in. -/
def bodySymbols : List (Grammar.Symbol Terminal Kind) :=
  [.nonterminal .translationUnit, .nonterminal .functionDeclaration,
    .nonterminal .compoundStatement, .terminal .bodyText]

/-- A function up to its body. -/
def signature : Expansion :=
  Expansion.maybe Expansion.attributes * Expansion.token .fnWord * Expansion.part .identifier *
    Expansion.token .leftParen * Expansion.maybe (Expansion.part .parameterList) *
    Expansion.token .rightParen * Expansion.maybe (Expansion.part .functionReturnType)

theorem symbols_signature : ∀ symbol ∈ Expansion.symbols signature, symbol ∉ bodySymbols := by
  decide

theorem exists_leaf_of_symbol {phrase : Phrase κ} {terminal : Terminal}
    (isToken : phrase.symbol = .terminal terminal) : ∃ token, phrase = .leaf terminal token := by
  cases phrase with
  | leaf letter token =>
      cases isToken
      exact ⟨token, rfl⟩
  | node kind children => cases isToken

/-- Between the braces of a body there are its texts and other bodies. -/
def blockParts : List (Grammar.Symbol Terminal Kind) :=
  [.nonterminal .compoundStatement, .terminal .bodyText]

theorem symbols_blockPart : ∀ symbol ∈ Expansion.symbols (Expansion.many Expansion.blockPart),
    symbol ∈ blockParts := by
  decide

theorem Derives.exists_block {children : List (Phrase κ)}
    (derives : (Phrase.node .compoundStatement children).Derives) :
    ∃ opening inner closing,
      Phrase.node .compoundStatement children = body opening inner closing ∧
        ∀ part ∈ inner, part.Derives ∧ part.symbol ∈ blockParts := by
  rcases derives with _ | ⟨_, _, isRow, below⟩
  rcases Language.mem_mul.mp isRow with ⟨_, isFront, _, rfl, whole⟩
  rcases Language.mem_mul.mp isFront with ⟨_, rfl, between, isBetween, rfl⟩
  rcases List.map_eq_append_iff.mp whole.symm with ⟨front, back, rfl, inFront, isBack⟩
  rcases List.map_eq_append_iff.mp inFront with ⟨start, inner, rfl, isStart, rfl⟩
  rcases List.map_eq_singleton_iff.mp isStart with ⟨first, rfl, isOpening⟩
  rcases List.map_eq_singleton_iff.mp isBack with ⟨last, rfl, isClosing⟩
  rcases exists_leaf_of_symbol isOpening with ⟨opening, rfl⟩
  rcases exists_leaf_of_symbol isClosing with ⟨closing, rfl⟩
  refine ⟨opening, inner, closing, by simp [body], ?_⟩
  intro part isPart
  refine ⟨below part (by simp [isPart]), symbols_blockPart _ ?_⟩
  exact Expansion.mem_symbols isBetween (List.mem_map_of_mem isPart)

theorem derives_body_nil (opening closing : κ) : (body opening [] closing).Derives :=
  (derives_iff _).mp rfl

/-- A function is made of its signature and its body. -/
theorem Derives.exists_function {children : List (Phrase κ)}
    (derives : (Phrase.node .functionDeclaration children).Derives) :
    ∃ parts opening inner closing,
      Phrase.node .functionDeclaration children = function parts (body opening inner closing) ∧
      ∀ part ∈ parts, part.Derives ∧ part.symbol ∉ bodySymbols := by
  rcases derives with _ | ⟨_, _, isRow, below⟩
  rcases Language.mem_mul.mp isRow with ⟨front, isFront, _, rfl, whole⟩
  rcases List.map_eq_append_iff.mp whole.symm with ⟨parts, last, rfl, rfl, isLast⟩
  rcases List.map_eq_singleton_iff.mp isLast with ⟨body, rfl, isBody⟩
  rcases List.forall_mem_append.mp below with ⟨inParts, inLast⟩
  cases body with
  | leaf terminal token => cases isBody
  | node kind inside =>
      cases isBody
      rcases (inLast _ List.mem_cons_self).exists_block with
        ⟨opening, inner, closing, isBody, -⟩
      refine ⟨parts, opening, inner, closing, by rw [isBody, function], ?_⟩
      intro part isPart
      refine ⟨inParts part isPart, symbols_signature _ ?_⟩
      exact Expansion.mem_symbols isFront (List.mem_map_of_mem isPart)

/-- Any body will do. -/
theorem Derives.replace_body {parts : List (Phrase κ)} {old new : Phrase κ}
    (derives : (function parts old).Derives) (sameSymbol : new.symbol = old.symbol)
    (newDerives : new.Derives) : (function parts new).Derives := by
  rcases derives with _ | ⟨_, _, isRow, below⟩
  rw [List.map_append, List.map_singleton, ← sameSymbol, ← List.map_singleton,
    ← List.map_append] at isRow
  refine .node _ _ isRow (List.forall_mem_append.mpr ⟨?_, ?_⟩)
  · exact (List.forall_mem_append.mp below).1
  · exact List.forall_mem_singleton.mpr newDerives

/-! ## The text of bodies -/

theorem leavesOfAll_eq_flatMap (list : List (Phrase κ)) :
    leavesOfAll list = list.flatMap leaves := by
  induction list with
  | nil => rfl
  | cons phrase list induction => rw [leavesOfAll, induction, List.flatMap_cons]

theorem symbols_plain {kind : Kind} (isPlain : .nonterminal kind ∉ bodySymbols) :
    ∀ symbol ∈ Expansion.symbols (rightHandSide kind), symbol ∉ bodySymbols := by
  revert isPlain
  cases kind <;> decide

theorem Derives.ne_bodyText {phrase : Phrase κ} (derives : phrase.Derives)
    (isPlain : phrase.symbol ∉ bodySymbols) : ∀ leaf ∈ phrase.leaves, leaf.1 ≠ .bodyText := by
  induction derives with
  | leaf terminal token =>
      simp only [leaves, List.mem_singleton, forall_eq]
      rintro rfl
      exact isPlain (by simp [symbol, bodySymbols])
  | node kind children isRow below induction =>
      rw [leaves, leavesOfAll_eq_flatMap]
      intro leaf isLeaf
      rcases List.mem_flatMap.mp isLeaf with ⟨child, isChild, inChild⟩
      refine induction child isChild ?_ leaf inChild
      exact symbols_plain isPlain _ (Expansion.mem_symbols isRow (List.mem_map_of_mem isChild))

theorem symbols_globalItem : ∀ symbol ∈ Expansion.symbols Expansion.globalItem,
    symbol ∈ bodySymbols → symbol = .nonterminal .functionDeclaration := by
  decide

/-- The text of a body stands between the braces of a function. -/
theorem IsModule.exists_function_of_leaf {items : List (Phrase κ)}
    (isModule : (module items).IsModule) {leaf : Terminal × κ} (isLeaf : leaf ∈ leavesOfAll items)
    (isText : leaf.1 = .bodyText) :
    ∃ before parts opening inner closing after,
      items = before ++ function parts (body opening inner closing) :: after ∧
        leaf ∈ leavesOfAll inner := by
  rw [leavesOfAll_eq_flatMap] at isLeaf
  rcases List.mem_flatMap.mp isLeaf with ⟨item, isItem, inItem⟩
  rcases isModule_module_iff.mp isModule item isItem with ⟨isGlobal, derives⟩
  have isFunction : item.symbol = .nonterminal .functionDeclaration := by
    apply symbols_globalItem _ (Expansion.mem_symbols isGlobal List.mem_cons_self)
    by_contra isPlain
    exact derives.ne_bodyText isPlain leaf inItem isText
  cases item with
  | leaf terminal token => cases isFunction
  | node kind children =>
      cases isFunction
      rcases derives.exists_function with ⟨parts, opening, inner, closing, isWhole, arePlain⟩
      rw [isWhole] at isItem inItem
      rcases List.append_of_mem isItem with ⟨before, after, isItems⟩
      refine ⟨before, parts, opening, inner, closing, after, isItems, ?_⟩
      rw [leaves_function, leaves_body, leavesOfAll_eq_flatMap parts] at inItem
      simp only [List.mem_append, List.mem_cons, List.not_mem_nil, or_false] at inItem
      rcases inItem with inParts | isOpening | inInner | isClosing
      · rcases List.mem_flatMap.mp inParts with ⟨part, isPart, inPart⟩
        exact absurd isText
          ((arePlain part isPart).1.ne_bodyText (arePlain part isPart).2 leaf inPart)
      · rw [isOpening] at isText
        cases isText
      · exact inInner
      · rw [isClosing] at isText
        cases isText

/-! ## Bodies in a tree -/

theorem span?_toNode_body (opening closing : Token) (inner : List (Phrase Token)) :
    (body opening inner closing).toNode.span? =
      some ⟨opening.span.start, closing.span.stop⟩ := by
  rw [body, toNode, toNodes_eq_map, Node.span?, Node.cover, List.map_cons, List.map_append,
    ← List.cons_append, List.map_singleton, List.getLast?_concat]
  rfl

end Phrase

theorem isBody_iff {source : List Char} {items : List (Phrase Token)}
    (accepted : SyntaxTree.parse source = .ok ⟨source, (Phrase.module items).toNode⟩)
    (isModule : (Phrase.module items).IsModule) {span : Span} :
    SyntaxTree.IsBody ⟨source, (Phrase.module items).toNode⟩ span ↔
      ∃ before parts opening inner closing after,
        items = before ++ Phrase.function parts (Phrase.body opening inner closing) :: after ∧
          span = ⟨opening.span.start, closing.span.stop⟩ := by
  constructor
  · rintro ⟨function, inTree, isFunction, body, isBody, isCompound, rfl⟩
    rcases grammatical_of_parse accepted with ⟨-, grammatical, isTop⟩
    have ofKind : (Phrase.module items).toNode.OfKind source .translationUnit :=
      ⟨grammatical, rfl, isTop⟩
    have isPart : function ∈ (Phrase.module items).toNode.parts .functionDeclaration := by
      rw [← ofKind.among_walk (by decide)]
      exact List.mem_filter.mpr ⟨inTree, beq_iff_eq.mpr isFunction⟩
    have isChild := (List.mem_filter.mp isPart).1
    rw [Phrase.children_toNode_module] at isChild
    rcases List.mem_map.mp isChild with ⟨item, isItem, rfl⟩
    have derives := (Phrase.isModule_module_iff.mp isModule item isItem).2
    cases item with
    | leaf terminal token => cases isFunction
    | node kind children =>
        cases isFunction
        rcases derives.exists_function with ⟨parts, opening, inner, closing, isWhole, arePlain⟩
        rw [isWhole] at isItem isBody
        rcases List.append_of_mem isItem with ⟨before, after, isItems⟩
        refine ⟨before, parts, opening, inner, closing, after, isItems, ?_⟩
        rw [Phrase.function, Phrase.toNode, Node.children, Phrase.toNodes_eq_map] at isBody
        rcases List.mem_map.mp isBody with ⟨part, isPart, rfl⟩
        rcases List.mem_append.mp isPart with inParts | isLast
        · have isSymbol : part.symbol = .nonterminal .compoundStatement := by
            cases part with
            | leaf terminal token => cases isCompound
            | node kind children =>
                cases isCompound
                rfl
          exact absurd (isSymbol ▸ (arePlain part inParts).2) (by decide)
        · rw [List.mem_singleton.mp isLast, Node.span, Phrase.span?_toNode_body,
            Option.getD_some]
  · rintro ⟨before, parts, opening, inner, closing, after, rfl, rfl⟩
    refine ⟨(Phrase.function parts (Phrase.body opening inner closing)).toNode, ?_, rfl,
      (Phrase.body opening inner closing).toNode, ?_, rfl, ?_⟩
    · rw [Phrase.module, Phrase.toNode, Phrase.toNodes_eq_map, Node.mem_walk_named]
      refine .inr ⟨_, List.mem_map_of_mem (List.mem_append_right _ List.mem_cons_self), ?_⟩
      exact Node.mem_walk_named.mpr (.inl rfl)
    · rw [Phrase.function, Phrase.toNode, Node.children, Phrase.toNodes_eq_map]
      exact List.mem_map_of_mem (List.mem_append_right _ List.mem_cons_self)
    · rw [Node.span, Phrase.span?_toNode_body, Option.getD_some]

end ShaderReflection.Tree

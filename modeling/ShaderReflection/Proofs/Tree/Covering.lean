import ShaderReflection.Proofs.Tree.Parts
import ShaderReflection.Proofs.Tree.RoundTrip
import ShaderReflection.Proofs.Tree.Tiling
import ShaderReflection.Proofs.Wgsl.Reads

/-!
# Modules in a text

A source is accepted if a module stands in it: the tokens of the module cover the text, each read in
the state that the machine has reached (`parse_eq_ok_iff`). A module is a row of items, so modules
can be put one behind the other (`standsAt_append_iff`).
-/

namespace ShaderReflection.Tree

open ShaderReflection.Grammar ShaderReflection.Wgsl ShaderReflection.Text Computability

variable {κ μ : Type}

/-! ## Rows of items -/

/-- The rows of a repeated choice are rows of symbols that can be chosen. -/
theorem Expansion.mem_many {expansion : Expansion} {row : List (Grammar.Symbol Terminal Kind)}
    (choice : isChoice expansion = true) :
    row ∈ (many expansion).matches' ↔ ∀ symbol ∈ row, [symbol] ∈ expansion.matches' := by
  rw [many, RegularExpression.matches', Language.mem_kstar]
  constructor
  · rintro ⟨pieces, rfl, arePieces⟩ symbol isSymbol
    rcases List.mem_flatten.mp isSymbol with ⟨piece, isPiece, inPiece⟩
    rcases exists_eq_singleton (arePieces piece isPiece) choice with ⟨only, -, rfl⟩
    rw [List.mem_singleton.mp inPiece]
    exact arePieces _ isPiece
  · intro each
    refine ⟨row.map fun symbol => [symbol], ?_, List.forall_mem_map.mpr each⟩
    rw [← List.flatMap_def, List.flatMap_singleton']

namespace Phrase

variable {left right : List (Phrase κ)}

/-- A module of items. -/
def module (items : List (Phrase κ)) : Phrase κ := .node .translationUnit items

theorem leaves_module (items : List (Phrase κ)) : (module items).leaves = leavesOfAll items := by
  rw [module, leaves]

theorem isModule_module_iff {items : List (Phrase κ)} : (module items).IsModule ↔
    ∀ item ∈ items, [item.symbol] ∈ Expansion.globalItem.matches' ∧ item.Derives := by
  have isRow : items.map symbol ∈ (rightHandSide .translationUnit).matches' ↔
      ∀ item ∈ items, [item.symbol] ∈ Expansion.globalItem.matches' := by
    rw [rightHandSide, Expansion.mem_many (by decide), List.forall_mem_map]
  constructor
  · rintro ⟨_ | ⟨_, _, inRow, below⟩, -⟩ item isItem
    exact ⟨isRow.mp inRow item isItem, below item isItem⟩
  · intro each
    refine ⟨.node _ _ (isRow.mpr fun item isItem => (each item isItem).1) ?_, rfl⟩
    exact fun item isItem => (each item isItem).2

theorem isModule_append_iff :
    (module (left ++ right)).IsModule ↔ (module left).IsModule ∧ (module right).IsModule := by
  simp only [isModule_module_iff, List.forall_mem_append]

theorem IsModule.exists_items {phrase : Phrase κ} (isModule : phrase.IsModule) :
    ∃ items, phrase = module items := by
  have isTop := isModule.isTop
  cases phrase with
  | leaf terminal token => cases isTop
  | node kind children =>
      cases isTop
      exact ⟨children, rfl⟩

theorem children_toNode_module (items : List (Phrase Token)) :
    (module items).toNode.children = items.map toNode := by
  rw [module, toNode, Node.children, toNodes_eq_map]

/-! ## Other tokens -/

theorem mapAll_eq_map (change : κ → μ) (list : List (Phrase κ)) :
    mapAll change list = list.map (map change) := by
  induction list with
  | nil => rfl
  | cons phrase list induction => rw [mapAll, induction, List.map_cons]

theorem map_module (change : κ → μ) (items : List (Phrase κ)) :
    (module items).map change = module (items.map (map change)) := by
  rw [module, map, mapAll_eq_map, module]

end Phrase

/-- The states of the machine depend on the letters of a module alone. -/
theorem trace_eq_of_isModule {left : Phrase κ} {right : Phrase μ} (leftIsModule : left.IsModule)
    (rightIsModule : right.IsModule)
    (sameLetters : left.leaves.map Prod.fst = right.leaves.map Prod.fst) :
    parser.trace [] left.leaves = parser.trace [] right.leaves := by
  rcases leftIsModule.exists_derivation with ⟨leftTree, leftFollows, leftStarts, leftShown⟩
  rcases rightIsModule.exists_derivation with ⟨rightTree, rightFollows, rightStarts, rightShown⟩
  rw [← leaves_of_phrases leftShown, ← leaves_of_phrases rightShown] at sameLetters ⊢
  exact Parser.trace_eq_of_letters parser_valid rules_graded leftFollows rightFollows leftStarts
    rightStarts sameLetters

/-! ## Standing in a text -/

namespace Phrase

variable {phrase : Phrase Token} {position place : Position} {text : List Char}

/-- From a position on, the tokens of a phrase and the trivia between them make up a text. -/
def StandsAt (phrase : Phrase Token) (position : Position) (text : List Char) : Prop :=
  Covers (0 :: parser.trace [] phrase.leaves) position text phrase.leaves

theorem StandsAt.scan (stands : phrase.StandsAt Position.start text) (isModule : phrase.IsModule) :
    language.Scan [] Position.start text phrase.leaves := by
  rcases run_leaves_of_isModule isModule with ⟨derivation, built, -⟩
  exact scan_of_covers stands (Parser.length_trace built)

theorem StandsAt.moved (stands : phrase.StandsAt Position.start text) (isModule : phrase.IsModule)
    (place : Position) : (phrase.map (Wgsl.moved place)).StandsAt place text := by
  have sameTrace : parser.trace [] (phrase.map (Wgsl.moved place)).leaves =
      parser.trace [] phrase.leaves := by
    apply trace_eq_of_isModule (isModule.map _) isModule
    rw [leaves_map, List.map_map]
    rfl
  rw [StandsAt, sameTrace, leaves_map]
  exact Covers.moved_plus stands place

theorem StandsAt.exists_of_moved (stands : phrase.StandsAt place text)
    (isModule : phrase.IsModule) :
    ∃ found : Phrase Token, phrase = found.map (Wgsl.moved place) ∧ found.IsModule ∧
      found.StandsAt Position.start text := by
  rcases Covers.exists_of_plus stands with ⟨tokens, areMoved, covers⟩
  rcases phrase.exists_map_eq (Wgsl.moved place) tokens areMoved.symm with
    ⟨found, rfl, rfl⟩
  have foundIsModule := isModule.of_map
  refine ⟨found, rfl, foundIsModule, ?_⟩
  have sameTrace : parser.trace [] found.leaves =
      parser.trace [] (found.map (Wgsl.moved place)).leaves := by
    apply trace_eq_of_isModule foundIsModule isModule
    rw [leaves_map, List.map_map]
    rfl
  rw [StandsAt, sameTrace]
  exact covers

theorem standsAt_append_iff {left right : List (Phrase Token)}
    (leftIsModule : (module left).IsModule) (rightIsModule : (module right).IsModule) :
    (module (left ++ right)).StandsAt position text ↔
      ∃ front back, text = front ++ back ∧
        Reads (0 :: parser.trace [] (module left).leaves) position front (module left).leaves
          back ∧
        (module right).StandsAt (position.advance front) back := by
  rcases run_leaves_of_isModule leftIsModule with ⟨_, leftBuilt, -⟩
  rcases run_leaves_of_isModule rightIsModule with ⟨_, rightBuilt, -⟩
  rw [StandsAt, leaves_module, leavesOfAll_append, ← leaves_module, ← leaves_module]
  exact covers_append_iff leftBuilt rightBuilt

end Phrase

/-- A source is accepted if a module stands in it, and the tree is the tree of the module. -/
theorem parse_eq_ok_iff {source : List Char} {tree : SyntaxTree} :
    SyntaxTree.parse source = .ok tree ↔
      ∃ phrase : Phrase Token, phrase.IsModule ∧ tree = ⟨source, phrase.toNode⟩ ∧
        phrase.StandsAt Position.start source := by
  constructor
  · intro accepted
    rcases exists_phrase_of_parse accepted with ⟨phrase, isModule, isTree, scan⟩
    exact ⟨phrase, isModule, isTree, covers_of_scan scan⟩
  · rintro ⟨phrase, isModule, rfl, stands⟩
    rcases run_leaves_of_isModule isModule with ⟨derivation, built, shown⟩
    have reads := (Language.read_eq_ok_iff Lexeme.lexicon_honest).mpr
      ⟨_, stands.scan isModule, built⟩
    rw [SyntaxTree.parse, reads]
    simp only [ofDerivation_eq shown]

/-! ## Marks of comments -/

/-- No leaf of a tree stands where a comment between marks seems to begin. -/
def SyntaxTree.NoLeafAtMark (tree : SyntaxTree) : Prop :=
  ∀ leaf ∈ tree.root.leaves, ¬ ['/', '*'] <+: tree.source.drop (leaf.span tree.source).start

theorem notMark_of_noLeafAtMark {source : List Char} {phrase : Phrase Token}
    (noMark : SyntaxTree.NoLeafAtMark ⟨source, phrase.toNode⟩) :
    ∀ leaf ∈ phrase.leaves, ¬ ['/', '*'] <+: source.drop leaf.2.start.offset := by
  intro leaf isLeaf
  have isNode : Node.ofLeaf leaf ∈ phrase.toNode.leaves := by
    rw [Phrase.leaves_toNode]
    exact List.mem_map_of_mem isLeaf
  exact noMark _ isNode

instance (tree : SyntaxTree) : Decidable tree.NoLeafAtMark :=
  inferInstanceAs (Decidable (∀ leaf ∈ tree.root.leaves,
    ¬ ['/', '*'] <+: tree.source.drop (leaf.span tree.source).start))

end ShaderReflection.Tree

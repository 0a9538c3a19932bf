import ShaderReflection.Proofs.Tree.Phrase
import ShaderReflection.Proofs.Tree.Walking
import ShaderReflection.Proofs.Wgsl.Texts

/-!
# Syntax trees follow the grammar

What the parser gives is a derivation tree: every node has a kind, its children are in the
right-hand side of that kind, and every token is written like its terminal. `Node.Grammatical` says
so of one node and everything below it.
-/

namespace ShaderReflection.Tree

open ShaderReflection.Grammar ShaderReflection.Wgsl ShaderReflection.Text

namespace Node

/-! ## Nodes that follow the grammar -/

/-- What a node is as a child of another, if the grammar knows its label. -/
def symbol? : Node → Option (Grammar.Symbol Terminal Kind)
  | named label span children => (named label span children).kind?.map .nonterminal
  | token (.known terminal) _ => some (.terminal terminal)
  | token (.other _) _ => none

/-- A node of a derivation tree, as it stands in a source. -/
inductive Grammatical (source : List Char) : Node → Prop
  | named (kind : Kind) (children : List Node) (row : List (Grammar.Symbol Terminal Kind))
      (isRow : row ∈ (rightHandSide kind).matches')
      (symbols : children.map symbol? = row.map some)
      (below : ∀ child ∈ children, Grammatical source child) :
      Grammatical source (named (.known kind) (cover children) children)
  | token (terminal : Terminal) (span : Span) (isText : span.slice source ∈ terminal.texts) :
      Grammatical source (token (.known terminal) span)

theorem Grammatical.of_mem_walk {source : List Char} {node other : Node}
    (grammatical : node.Grammatical source) (isBelow : other ∈ node.walk) :
    other.Grammatical source := by
  induction grammatical with
  | named kind children row isRow symbols below induction =>
      rcases mem_walk_named.mp isBelow with rfl | ⟨child, isChild, inChild⟩
      · exact .named kind children row isRow symbols below
      · exact induction child isChild inChild
  | token terminal span isText =>
      rw [mem_walk_token.mp isBelow]
      exact .token terminal span isText

end Node

/-! ## The nodes of a phrase -/

theorem Phrase.symbol?_toNode (phrase : Phrase Token) :
    phrase.toNode.symbol? = some phrase.symbol := by
  cases phrase <;> rfl

theorem Phrase.mem_leavesOfAll {leaf : Terminal × Token} {list : List (Phrase Token)}
    {phrase : Phrase Token} (isPhrase : phrase ∈ list) (isLeaf : leaf ∈ phrase.leaves) :
    leaf ∈ leavesOfAll list := by
  induction list with
  | nil => cases isPhrase
  | cons first list induction =>
      rw [leavesOfAll, List.mem_append]
      rcases List.mem_cons.mp isPhrase with rfl | isLater
      · exact .inl isLeaf
      · exact .inr (induction isLater)

theorem Phrase.Derives.grammatical {source : List Char} {phrase : Phrase Token}
    (derives : phrase.Derives)
    (written : ∀ leaf ∈ phrase.leaves, leaf.2.span.slice source ∈ leaf.1.texts) :
    phrase.toNode.Grammatical source := by
  induction derives with
  | leaf terminal lexeme => exact .token terminal lexeme.span (written _ List.mem_cons_self)
  | node kind children isRow below induction =>
      rw [toNode, toNodes_eq_map]
      refine .named kind _ _ isRow ?_ ?_
      · rw [List.map_map, List.map_map]
        exact List.map_congr_left fun child _ => symbol?_toNode child
      · intro node isNode
        rcases List.mem_map.mp isNode with ⟨child, isChild, rfl⟩
        exact induction child isChild fun leaf isLeaf =>
          written leaf (mem_leavesOfAll isChild isLeaf)

/-! ## What the parser gives -/

/-- What is read from a source is a module whose tokens stand in the source. -/
theorem exists_phrase_of_read {source : List Char}
    {derivation : Derivation Terminal Nonterminal Token}
    (reads : language.read source = .ok derivation) :
    ∃ phrase : Phrase Token, phrase.IsModule ∧ Node.ofDerivation derivation = phrase.toNode ∧
      phrase.leaves = derivation.leaves ∧
      language.Scan [] Position.start source derivation.leaves := by
  rcases (Language.read_eq_ok_iff Lexeme.lexicon_honest).mp reads with ⟨terminals, scan, built⟩
  have sound := Parser.follows_run built (by simp [Stack.Follows])
  rw [Stack.leaves_nil, List.nil_append] at sound
  rcases sound with ⟨follows, isStart, rfl⟩
  rcases exists_phrase follows isStart with ⟨phrase, shown, isModule⟩
  exact ⟨phrase, isModule, ofDerivation_eq shown, (leaves_of_phrases shown).symm, scan⟩

theorem exists_read_of_parse {source : List Char} {tree : SyntaxTree}
    (accepted : SyntaxTree.parse source = .ok tree) :
    ∃ derivation, language.read source = .ok derivation ∧
      tree = ⟨source, Node.ofDerivation derivation⟩ := by
  rw [SyntaxTree.parse] at accepted
  split at accepted
  · rename_i derivation reads
    cases accepted
    exact ⟨derivation, reads, rfl⟩
  · cases accepted

/-- An accepted source is a module whose tokens stand in the source. -/
theorem exists_phrase_of_parse {source : List Char} {tree : SyntaxTree}
    (accepted : SyntaxTree.parse source = .ok tree) :
    ∃ phrase : Phrase Token, phrase.IsModule ∧ tree = ⟨source, phrase.toNode⟩ ∧
      language.Scan [] Position.start source phrase.leaves := by
  rcases exists_read_of_parse accepted with ⟨derivation, reads, rfl⟩
  rcases exists_phrase_of_read reads with ⟨phrase, isModule, isNode, sameLeaves, scan⟩
  exact ⟨phrase, isModule, by rw [isNode], sameLeaves ▸ scan⟩

theorem slice_mem_texts {source : List Char} {terminals : List (Terminal × Token)}
    (scan : language.Scan [] Position.start source terminals) :
    ∀ leaf ∈ terminals, leaf.2.span.slice source ∈ leaf.1.texts := by
  intro leaf isLeaf
  rw [scan.slice_eq_text Lexeme.lexicon_honest rfl leaf isLeaf]
  rcases scan.exists_read leaf isLeaf with ⟨number, rest, reads⟩
  exact Lexeme.mem_texts_of_read reads

theorem grammatical_of_parse {source : List Char} {tree : SyntaxTree}
    (accepted : SyntaxTree.parse source = .ok tree) :
    tree.source = source ∧ tree.root.Grammatical source ∧
      tree.root.kind? = some .translationUnit := by
  rcases exists_phrase_of_parse accepted with ⟨phrase, isModule, rfl, scan⟩
  refine ⟨rfl, isModule.derives.grammatical (slice_mem_texts scan), ?_⟩
  have isTop := isModule.isTop
  cases phrase with
  | leaf terminal lexeme => cases isTop
  | node kind children =>
      cases isTop
      rfl

/-! ## Derivations -/

/-- An accepted source has the tree of a derivation: below a module, every node is of a kind whose
right-hand side its children are in, and every token is written like its terminal. -/
theorem parse_follows_grammar {source : List Char} {tree : SyntaxTree}
    (accepted : SyntaxTree.parse source = .ok tree) :
    tree.root.kind? = some .translationUnit ∧
      ∀ node ∈ tree.root.walk,
        match node with
        | .named label _ children =>
            ∃ kind row, label = .known kind ∧ kind ≠ .anonymous ∧
              row ∈ (rightHandSide kind).matches' ∧ children.map Node.symbol? = row.map some
        | .token label span =>
            ∃ terminal, label = .known terminal ∧ span.slice source ∈ terminal.texts := by
  rcases grammatical_of_parse accepted with ⟨-, grammatical, isTop⟩
  refine ⟨isTop, ?_⟩
  intro node isNode
  cases grammatical.of_mem_walk isNode with
  | named kind children row isRow symbols below =>
      refine ⟨kind, row, rfl, ?_, isRow, symbols⟩
      rintro rfl
      exact isRow
  | token terminal span isText => exact ⟨terminal, rfl, isText⟩

/-- A result that passes a test is not a failure. -/
theorem exists_ok_of_any {ε α : Type} {result : Except ε α} {test : α → Bool}
    (checked : result.toOption.any test = true) :
    ∃ value, result = .ok value ∧ test value = true := by
  cases result with
  | error failure => cases checked
  | ok value => exact ⟨value, rfl, checked⟩

/-- A module with an attribute, template arguments, a return type and a nested block. -/
def mixedSource : String :=
  "@group(0) var<storage> a: array<vec4f, 8>; fn f() -> i32 \x7b b \x7b c \x7d \x7d"

theorem parse_follows_grammar_mixedSource :
    ∃ tree, SyntaxTree.parse mixedSource.toList = .ok tree ∧
      tree.root.kind? = some .translationUnit := by
  have checked : (SyntaxTree.parse mixedSource.toList).toOption.any (fun _ => true) = true := by
    decide +kernel
  rcases exists_ok_of_any checked with ⟨tree, accepted, -⟩
  exact ⟨tree, accepted, (parse_follows_grammar accepted).1⟩

end ShaderReflection.Tree

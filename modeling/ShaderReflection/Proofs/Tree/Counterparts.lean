import Mathlib.Data.List.Forall2
import ShaderReflection.Proofs.Tree.Lexemes
import ShaderReflection.Proofs.Tree.Sites

/-!
# Nodes in the same place of two trees

Two sources can be read as the same phrase and differ in their trivia. Their trees then correspond
node by node: counterparts have the same label, their children are counterparts in turn, and they
have the same leaves, so that nothing but the trivia between the leaves differs in their texts.
-/

namespace ShaderReflection.Tree

open ShaderReflection.Grammar ShaderReflection.Wgsl ShaderReflection.Text

variable {source : List Char} {left right : SyntaxTree} {node found : Node} {kind : Kind}

namespace Node

/-! ## Nodes as they are written -/

/-- A node of a derivation tree in which the text of every node is that of its leaves. -/
structure Written (source : List Char) (node : Node) : Prop where
  grammatical : node.Grammatical source
  spaced : ∀ part ∈ node.walk, part.leaves ≠ [] →
    Spaced (part.lexemes source) (part.chars source)

theorem Written.child (written : node.Written source) {child : Node}
    (isChild : child ∈ node.children) : child.Written source where
  grammatical := written.grammatical.of_mem_walk (mem_walk_of_child isChild child.mem_walk_self)
  spaced := fun part inChild => written.spaced part (mem_walk_of_child isChild inChild)

theorem written_of_parse {tree : SyntaxTree} (accepted : SyntaxTree.parse source = .ok tree) :
    tree.root.Written source where
  grammatical := (grammatical_of_parse accepted).2.1
  spaced := fun _ => spaced_of_parse accepted

theorem Written.spaced_text (written : node.Written source) (isFull : node.leaves ≠ []) :
    Spaced (node.lexemes source) (node.text source).toList := by
  rw [text, String.toList_ofList]
  exact written.spaced node node.mem_walk_self isFull

theorem lexemes_eq_flatMap (isNamed : node.isNamed = true) :
    node.lexemes source = node.children.flatMap (lexemes source) := by
  rw [lexemes, leaves_eq_flatMap isNamed, List.filterMap_flatMap]
  rfl

theorem lexemes_of_symbol? (grammatical : node.Grammatical source) {terminal : Terminal}
    (isToken : node.symbol? = some (.terminal terminal)) :
    node.lexemes source = [(terminal, node.chars source)] := by
  cases grammatical with
  | named => cases isToken
  | token letter span isText =>
      cases isToken
      rfl

/-- A node that is a single token has a single lexeme. -/
theorem OfKind.exists_lexeme (ofKind : node.OfKind source kind)
    (choice : Expansion.isChoice (rightHandSide kind) = true)
    (noParts : Expansion.kinds (rightHandSide kind) = []) :
    ∃ lexeme : Terminal × List Char, .terminal lexeme.1 ∈ Expansion.symbols (rightHandSide kind) ∧
      lexeme.2 ∈ lexeme.1.texts ∧ node.lexemes source = [lexeme] := by
  rcases ofKind.exists_token choice noParts with ⟨child, terminal, isChild, isToken, isSymbol⟩
  have grammatical := ofKind.child (isChild ▸ List.mem_singleton_self child)
  rw [lexemes_eq_flatMap ofKind.isNamed, isChild, List.flatMap_singleton]
  exact ⟨_, isSymbol, grammatical.chars_mem_texts isToken, lexemes_of_symbol? grammatical isToken⟩

/-- A token that is spelled in one way only. -/
theorem Grammatical.lexemes_of_fixed (grammatical : node.Grammatical source)
    {terminal : Terminal} (isToken : node.symbol? = some (.terminal terminal)) (text : String)
    (isFixed : (text, terminal) ∈ fixedSpellings) :
    node.lexemes source = [(terminal, text.toList)] := by
  rw [lexemes_of_symbol? grammatical isToken, grammatical.chars_of_fixed isToken text isFixed]

/-- A type is a single word, or the name of a type with template arguments in angle brackets. -/
theorem OfKind.lexemes_typeDeclaration (ofKind : node.OfKind source .typeDeclaration) :
    (∃ lexeme : Terminal × List Char, lexeme.1 ∈ [Terminal.identifier, .typeName] ∧
        lexeme.2 ∈ lexeme.1.texts ∧ node.lexemes source = [lexeme]) ∨
      ∃ word inside, word ∈ Terminal.texts .typeName ∧
        node.lexemes source =
          (.typeName, word) :: (.less, ['<']) :: (inside ++ [(.greater, ['>'])]) := by
  rcases ofKind.exists_row with ⟨row, isRow, symbols⟩
  rw [lexemes_eq_flatMap ofKind.isNamed]
  have grammatical : ∀ child ∈ node.children, child.Grammatical source :=
    fun child isChild => ofKind.child isChild
  rcases isRow with rfl | isTemplate | isNothing
  · rcases List.map_eq_singleton_iff.mp symbols with ⟨child, isChild, isName⟩
    rw [isChild, List.forall_mem_singleton] at grammatical
    rcases symbol?_eq_nonterminal.mp isName with ⟨isNamed, isKind⟩
    have isIdentifier : child.OfKind source .identifier := ⟨grammatical, isNamed, isKind⟩
    rcases isIdentifier.exists_lexeme rfl rfl with ⟨lexeme, isSymbol, isText, single⟩
    have isLetter : lexeme.1 = .identifier := by
      simpa [rightHandSide, Expansion.token, Expansion.symbols] using isSymbol
    rw [isChild, List.flatMap_singleton]
    exact .inl ⟨lexeme, by simp [isLetter], isText, single⟩
  · rcases Language.mem_mul.mp isTemplate with ⟨_, rfl, arguments, areArguments, rfl⟩
    rcases List.map_eq_cons_iff.mp symbols with ⟨name, others, isRow, isName, areOthers⟩
    rw [isRow, List.forall_mem_cons] at grammatical
    have isText := grammatical.1.chars_mem_texts isName
    rw [isRow, List.flatMap_cons, lexemes_of_symbol? grammatical.1 isName]
    rcases areArguments with rfl | areArguments
    · rw [List.map_eq_nil_iff.mp areOthers]
      exact .inl ⟨_, by simp, isText, rfl⟩
    rcases Language.mem_mul.mp areArguments with ⟨front, isFront, _, rfl, rfl⟩
    rcases Language.mem_mul.mp isFront with ⟨_, rfl, list, -, rfl⟩
    rcases List.map_eq_cons_iff.mp areOthers with ⟨less, others, rfl, isLess, areOthers⟩
    have areInside : others.map symbol? = list.map some ++ [some (.terminal .greater)] := by
      rw [areOthers]
      exact List.map_append
    rcases List.map_eq_append_iff.mp areInside with ⟨inside, last, rfl, -, isLast⟩
    rcases List.map_eq_singleton_iff.mp isLast with ⟨greater, rfl, isGreater⟩
    have lessLexemes : less.lexemes source = [(.less, ['<'])] :=
      (grammatical.2 less (by simp)).lexemes_of_fixed isLess "<" (by simp [fixedSpellings])
    have greaterLexemes : greater.lexemes source = [(.greater, ['>'])] :=
      (grammatical.2 greater (by simp)).lexemes_of_fixed isGreater ">" (by simp [fixedSpellings])
    refine .inr ⟨_, inside.flatMap (lexemes source), isText, ?_⟩
    rw [List.flatMap_cons, List.flatMap_append, List.flatMap_singleton, lessLexemes,
      greaterLexemes]
    rfl
  · cases isNothing

/-! ## Counterparts -/

theorem exists_of_phrase?_node {parts : List (Phrase (List Char))}
    (shows : node.phrase? source = some (.node kind parts)) :
    ∃ span children, node = .named (.known kind) span children ∧
      phraseAll? source children = some parts := by
  rcases node with ⟨_ | _, span, children⟩ | ⟨_ | _, span⟩
  · rcases Option.map_eq_some_iff.mp shows with ⟨others, areOthers, isNode⟩
    cases isNode
    exact ⟨span, children, rfl, areOthers⟩
  · cases shows
  · cases shows
  · cases shows

theorem exists_of_phrase?_leaf {terminal : Terminal} {text : List Char}
    (shows : node.phrase? source = some (.leaf terminal text)) :
    ∃ span, node = .token (.known terminal) span ∧ span.slice source = text := by
  rcases node with ⟨_ | _, span, children⟩ | ⟨_ | _, span⟩
  · rcases Option.map_eq_some_iff.mp shows with ⟨others, areOthers, isNode⟩
    cases isNode
  · cases shows
  · cases shows
    exact ⟨span, rfl, rfl⟩
  · cases shows

end Node

/-- Nodes of two trees to which the same way leads from the roots. -/
def SamePlace (left right : SyntaxTree) (node found : Node) : Prop :=
  ∃ way, left.root.at? way = some node ∧ right.root.at? way = some found

theorem SamePlace.child (samePlace : SamePlace left right node found) {index : Nat}
    {child other : Node} (isChild : node.children[index]? = some child)
    (isOther : found.children[index]? = some other) : SamePlace left right child other := by
  rcases samePlace with ⟨way, isNode, isFound⟩
  exact ⟨way ++ [index], Node.at?_child isNode isChild, Node.at?_child isFound isOther⟩

/-- Nodes in the same place that show the same phrase, each in its own source. -/
structure Counterparts (left right : SyntaxTree) (node found : Node) : Prop where
  samePlace : SamePlace left right node found
  written : node.Written left.source
  foundWritten : found.Written right.source
  samePhrase : ∃ phrase, node.phrase? left.source = some phrase ∧
    found.phrase? right.source = some phrase

/-- Nodes in the same place with the same leaves, each of them written with the same characters in
both sources. In the texts of the nodes there is nothing but trivia between the leaves. -/
structure SameLeaves (left right : SyntaxTree) (node found : Node) : Prop where
  samePlace : SamePlace left right node found
  lexemes_eq : node.lexemes left.source = found.lexemes right.source
  spaced : Spaced (node.lexemes left.source) (node.text left.source).toList
  foundSpaced : Spaced (found.lexemes right.source) (found.text right.source).toList

namespace Counterparts

theorem forall₂_of_phraseAll? {nodes others : List Node} {parts : List (Phrase (List Char))}
    (samePlaces : ∀ (index : Nat) (node found : Node), nodes[index]? = some node →
      others[index]? = some found → SamePlace left right node found)
    (shows : Node.phraseAll? left.source nodes = some parts)
    (othersShow : Node.phraseAll? right.source others = some parts)
    (written : ∀ node ∈ nodes, node.Written left.source)
    (othersWritten : ∀ node ∈ others, node.Written right.source) :
    List.Forall₂ (Counterparts left right) nodes others := by
  induction nodes generalizing others parts with
  | nil =>
      cases shows
      cases others with
      | nil => exact .nil
      | cons found others =>
          rcases Option.bind_eq_some_iff.mp othersShow with ⟨phrase, -, rest⟩
          rcases Option.map_eq_some_iff.mp rest with ⟨_, -, isNil⟩
          cases isNil
  | cons node nodes induction =>
      rcases Option.bind_eq_some_iff.mp shows with ⟨phrase, isPhrase, rest⟩
      rcases Option.map_eq_some_iff.mp rest with ⟨behind, areBehind, rfl⟩
      cases others with
      | nil => cases othersShow
      | cons found others =>
          rcases Option.bind_eq_some_iff.mp othersShow with ⟨other, isOther, otherRest⟩
          rcases Option.map_eq_some_iff.mp otherRest with ⟨otherBehind, areToo, isRow⟩
          cases isRow
          rw [List.forall_mem_cons] at written othersWritten
          exact .cons
            ⟨samePlaces 0 node found rfl rfl, written.1, othersWritten.1, phrase, isPhrase, isOther⟩
            (induction (fun index => samePlaces (index + 1)) areBehind areToo written.2
              othersWritten.2)

variable (counterparts : Counterparts left right node found)

include counterparts

theorem lexemes_eq : node.lexemes left.source = found.lexemes right.source := by
  rcases counterparts.samePhrase with ⟨phrase, shows, foundShows⟩
  rw [node.lexemes_of_phrase? shows, found.lexemes_of_phrase? foundShows]

/-- Counterparts have the same label. -/
theorem named_or_token :
    (∃ kind span place children others, node = .named (.known kind) span children ∧
      found = .named (.known kind) place others ∧
      List.Forall₂ (Counterparts left right) children others) ∨
    ∃ terminal span place, node = .token (.known terminal) span ∧
      found = .token (.known terminal) place := by
  rcases counterparts with ⟨samePlace, written, foundWritten, phrase, shows, foundShows⟩
  cases phrase with
  | leaf terminal text =>
      rcases Node.exists_of_phrase?_leaf shows with ⟨span, rfl, -⟩
      rcases Node.exists_of_phrase?_leaf foundShows with ⟨place, rfl, -⟩
      exact .inr ⟨terminal, span, place, rfl, rfl⟩
  | node kind parts =>
      rcases Node.exists_of_phrase?_node shows with ⟨span, children, rfl, areParts⟩
      rcases Node.exists_of_phrase?_node foundShows with ⟨place, others, rfl, areToo⟩
      exact .inl ⟨kind, span, place, children, others, rfl, rfl,
        forall₂_of_phraseAll? (fun _ _ _ => samePlace.child) areParts areToo
          (fun _ => written.child) fun _ => foundWritten.child⟩

theorem isNamed_eq : node.isNamed = found.isNamed := by
  rcases counterparts.named_or_token with ⟨_, _, _, _, _, rfl, rfl, -⟩ | ⟨_, _, _, rfl, rfl⟩
  · rfl
  · rfl

theorem kind?_eq : node.kind? = found.kind? := by
  rcases counterparts.named_or_token with ⟨_, _, _, _, _, rfl, rfl, -⟩ | ⟨_, _, _, rfl, rfl⟩
  · rfl
  · rfl

theorem ofKind_right (ofKind : node.OfKind left.source kind) : found.OfKind right.source kind :=
  ⟨counterparts.foundWritten.grammatical, counterparts.isNamed_eq ▸ ofKind.isNamed,
    counterparts.kind?_eq ▸ ofKind.isKind⟩

theorem ofKind_of_symbol? (isSymbol : node.symbol? = some (.nonterminal kind)) :
    node.OfKind left.source kind := by
  rcases Node.symbol?_eq_nonterminal.mp isSymbol with ⟨isNamed, isKind⟩
  exact ⟨counterparts.written.grammatical, isNamed, isKind⟩

/-! ## Parts of counterparts -/

theorem children : List.Forall₂ (Counterparts left right) node.children found.children := by
  rcases counterparts.named_or_token with ⟨_, _, _, _, _, rfl, rfl, rows⟩ | ⟨_, _, _, rfl, rfl⟩
  · exact rows
  · exact .nil

theorem namedChildren :
    List.Forall₂ (Counterparts left right) node.namedChildren found.namedChildren := by
  refine List.rel_filter ?_ counterparts.children
  intro child other both
  simp only [both.isNamed_eq]

theorem parts (kind : Kind) :
    List.Forall₂ (Counterparts left right) (node.parts kind) (found.parts kind) := by
  refine List.rel_filter ?_ counterparts.children
  intro child other both
  simp only [both.kind?_eq]

/-- The parts of counterparts with what the grammar says of them. -/
theorem partsOfKind (isNode : kind ≠ .anonymous) :
    List.Forall₂
      (fun part other => part.OfKind left.source kind ∧ Counterparts left right part other)
      (node.parts kind) (found.parts kind) := by
  rw [List.forall₂_and_left]
  refine ⟨?_, counterparts.parts kind⟩
  intro part isPart
  rcases List.mem_filter.mp isPart with ⟨isChild, isKind⟩
  rw [beq_iff_eq] at isKind
  exact ⟨(counterparts.written.child isChild).grammatical, Node.isNamed_of_kind? isNode isKind,
    isKind⟩

theorem head?_parts (isNode : kind ≠ .anonymous) :
    Option.Rel
      (fun part other => part.OfKind left.source kind ∧ Counterparts left right part other)
      (node.parts kind).head? (found.parts kind).head? := by
  have rows := counterparts.partsOfKind isNode
  generalize node.parts kind = parts, found.parts kind = others at rows ⊢
  cases rows with
  | nil => exact .none
  | cons first _ => exact .some first

/-- Where there is one part of a kind, it has a counterpart. -/
theorem only_part (isNode : kind ≠ .anonymous) {part other : Node}
    (isPart : node.parts kind = [part]) (isOther : found.parts kind = [other]) :
    part.OfKind left.source kind ∧ Counterparts left right part other := by
  have rows := counterparts.partsOfKind isNode
  rw [isPart, isOther] at rows
  exact (List.forall₂_cons.mp rows).1

/-! ## Texts of counterparts -/

theorem sameLeaves (notModule : node.kind? ≠ some .translationUnit) :
    SameLeaves left right node found := by
  have isFull := counterparts.written.grammatical.leaves_ne_nil notModule
  rw [counterparts.kind?_eq] at notModule
  have foundIsFull := counterparts.foundWritten.grammatical.leaves_ne_nil notModule
  exact ⟨counterparts.samePlace, counterparts.lexemes_eq,
    counterparts.written.spaced_text isFull, counterparts.foundWritten.spaced_text foundIsFull⟩

/-- Around a single lexeme there is no trivia. -/
theorem text_eq {lexeme : Terminal × List Char} (single : node.lexemes left.source = [lexeme]) :
    node.text left.source = found.text right.source := by
  have foundSingle : found.lexemes right.source = [lexeme] := counterparts.lexemes_eq ▸ single
  have isFull : ∀ {source : List Char} {node : Node}, node.lexemes source = [lexeme] →
      node.leaves ≠ [] := by
    intro source node single isEmpty
    rw [Node.lexemes, isEmpty] at single
    cases single
  have spaced := counterparts.written.spaced_text (isFull single)
  have foundSpaced := counterparts.foundWritten.spaced_text (isFull foundSingle)
  rw [single] at spaced
  rw [foundSingle] at foundSpaced
  apply String.toList_inj.mp
  rw [spaced.eq_of_singleton, foundSpaced.eq_of_singleton]

theorem text_eq_of_token (ofKind : node.OfKind left.source kind)
    (choice : Expansion.isChoice (rightHandSide kind) = true)
    (noParts : Expansion.kinds (rightHandSide kind) = []) :
    node.text left.source = found.text right.source := by
  rcases ofKind.exists_lexeme choice noParts with ⟨lexeme, -, -, single⟩
  exact counterparts.text_eq single

omit counterparts

/-! ## All nodes below counterparts -/

mutual

theorem walk : (node : Node) → {found : Node} → Counterparts left right node found →
    List.Forall₂ (Counterparts left right) node.walk found.walk
  | .named label span children, found, counterparts => by
      have rows := counterparts.children
      rcases counterparts.named_or_token with
        ⟨_, _, place, _, others, isNode, rfl, -⟩ | ⟨_, _, _, isToken, -⟩
      · rw [Node.walk_named, Node.walk_named]
        exact .cons counterparts (walkAll children rows)
      · cases isToken
  | .token label span, found, counterparts => by
      rcases counterparts.named_or_token with ⟨_, _, _, _, _, isNode, -⟩ | ⟨_, _, _, isToken, rfl⟩
      · cases isNode
      · exact .cons counterparts .nil

theorem walkAll : (nodes : List Node) → {others : List Node} →
    List.Forall₂ (Counterparts left right) nodes others →
    List.Forall₂ (Counterparts left right) (nodes.flatMap Node.walk) (others.flatMap Node.walk)
  | [], _, .nil => .nil
  | node :: rest, _, .cons first behind => by
      rw [List.flatMap_cons, List.flatMap_cons]
      exact List.rel_append (walk node first) (walkAll rest behind)

end

end Counterparts

/-! ## Trees of two sources -/

/-- What a parsed tree shows is a module. -/
theorem exists_module_of_parse {tree : SyntaxTree}
    (accepted : SyntaxTree.parse source = .ok tree) :
    ∃ phrase, tree.root.phrase? source = some phrase ∧ phrase.IsModule := by
  rcases exists_phrase_of_parse accepted with ⟨phrase, isModule, rfl, -⟩
  exact ⟨_, Node.phrase?_toNode source phrase, isModule.map _⟩

variable {tree other : SyntaxTree}

/-- Parsed sources whose trees show the same phrase: they differ in nothing but trivia. -/
structure Reformatted (tree other : SyntaxTree) : Prop where
  accepted : SyntaxTree.parse tree.source = .ok tree
  otherAccepted : SyntaxTree.parse other.source = .ok other
  samePhrase : tree.root.phrase? tree.source = other.root.phrase? other.source

theorem Reformatted.roots (reformatted : Reformatted tree other) :
    Counterparts tree other tree.root other.root := by
  rcases reformatted with ⟨accepted, otherAccepted, samePhrase⟩
  rcases exists_module_of_parse accepted with ⟨phrase, shows, -⟩
  exact ⟨⟨[], rfl, rfl⟩, Node.written_of_parse accepted, Node.written_of_parse otherAccepted,
    phrase, shows, samePhrase ▸ shows⟩

/-- The grammar is unambiguous, so sources with the same lexemes are read as the same phrase. -/
theorem reformatted_of_lexemes_eq (accepted : SyntaxTree.parse tree.source = .ok tree)
    (otherAccepted : SyntaxTree.parse other.source = .ok other)
    (same : tree.root.lexemes tree.source = other.root.lexemes other.source) :
    Reformatted tree other := by
  refine ⟨accepted, otherAccepted, ?_⟩
  rcases exists_module_of_parse accepted with ⟨phrase, shows, isModule⟩
  rcases exists_module_of_parse otherAccepted with ⟨found, foundShows, foundIsModule⟩
  rw [Node.lexemes_of_phrase? _ shows, Node.lexemes_of_phrase? _ foundShows] at same
  rw [shows, foundShows, eq_of_leaves_eq isModule foundIsModule same.symm]

end ShaderReflection.Tree

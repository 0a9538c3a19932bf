import ShaderReflection.Proofs.Tree.Parts
import ShaderReflection.Proofs.Tree.Tiling
import ShaderReflection.Proofs.Wgsl.Context

/-!
# Spans of nodes

A node reaches from its first leaf to its last one. So the text of a node with two leaves or more
is longer than a single character, and an expression is never written as a lone parenthesis.
-/

namespace ShaderReflection.Tree

open ShaderReflection.Grammar ShaderReflection.Wgsl ShaderReflection.Text

/-! ## Lengths of rows -/

namespace Expansion

/-- Whether every row has at least so many symbols. -/
def atLeast : Expansion → (count : Nat) → Bool
  | .zero, _ => true
  | .epsilon, count => decide (count = 0)
  | .char _, count => decide (count ≤ 1)
  | .plus left right, count => atLeast left count && atLeast right count
  | .comp left right, count =>
      (List.range (count + 1)).any fun front => atLeast left front && atLeast right (count - front)
  | .star _, count => decide (count = 0)

theorem le_length {expansion : Expansion} {row : List (Grammar.Symbol Terminal Kind)} {count : Nat}
    (isRow : row ∈ expansion.matches') (enough : atLeast expansion count = true) :
    count ≤ row.length := by
  induction expansion generalizing row count with
  | zero => cases isRow
  | epsilon =>
      rw [of_decide_eq_true enough]
      exact Nat.zero_le _
  | char symbol =>
      cases isRow
      exact of_decide_eq_true enough
  | plus left right inLeft inRight =>
      rcases Bool.and_eq_true_iff.mp enough with ⟨leftEnough, rightEnough⟩
      rcases isRow with isLeft | isRight
      · exact inLeft isLeft leftEnough
      · exact inRight isRight rightEnough
  | comp left right inLeft inRight =>
      rcases Language.mem_mul.mp isRow with ⟨front, isFront, back, isBack, rfl⟩
      rcases List.any_eq_true.mp enough with ⟨part, -, both⟩
      rcases Bool.and_eq_true_iff.mp both with ⟨leftEnough, rightEnough⟩
      have leftLength := inLeft isFront leftEnough
      have rightLength := inRight isBack rightEnough
      rw [List.length_append]
      omega
  | star inner induction =>
      rw [of_decide_eq_true enough]
      exact Nat.zero_le _

end Expansion

namespace Node

variable {source : List Char} {node : Node} {kind : Kind}

/-! ## Leaves -/

theorem leavesOfAll_eq_flatMap (nodes : List Node) : leavesOfAll nodes = nodes.flatMap leaves := by
  induction nodes with
  | nil => rfl
  | cons node nodes induction => rw [leavesOfAll, induction, List.flatMap_cons]

theorem leaves_eq_flatMap (isNamed : node.isNamed = true) :
    node.leaves = node.children.flatMap leaves := by
  cases node with
  | named label span children => rw [leaves, leavesOfAll_eq_flatMap, Node.children]
  | token label span => cases isNamed

theorem OfKind.length_children (ofKind : node.OfKind source kind) {count : Nat}
    (enough : Expansion.atLeast (rightHandSide kind) count = true) :
    count ≤ node.children.length := by
  rcases ofKind.exists_row with ⟨row, isRow, symbols⟩
  have same := congrArg List.length symbols
  rw [List.length_map, List.length_map] at same
  rw [same]
  exact Expansion.le_length isRow enough

/-- Only a module can be empty. -/
theorem atLeast_one (notModule : kind ≠ .translationUnit) :
    Expansion.atLeast (rightHandSide kind) 1 = true := by
  revert notModule
  cases kind <;> decide

theorem Grammatical.leaves_ne_nil (grammatical : node.Grammatical source)
    (notModule : node.kind? ≠ some .translationUnit) : node.leaves ≠ [] := by
  induction grammatical with
  | named kind children row isRow symbols below induction =>
      have ofKind : OfKind source kind (Node.named (.known kind) (cover children) children) :=
        ⟨.named kind children row isRow symbols below, rfl, rfl⟩
      have isFull := ofKind.length_children
        (atLeast_one fun isModule => notModule (isModule ▸ rfl))
      rcases List.exists_cons_of_length_pos isFull with ⟨first, others, rfl⟩
      have isFirst := induction first List.mem_cons_self (ofKind.kind?_child_ne List.mem_cons_self)
      rw [leaves, leavesOfAll]
      exact List.append_ne_nil_of_left_ne_nil isFirst _
  | token terminal span isText => exact List.cons_ne_nil _ _

/-- Every child of a node has a leaf. -/
theorem OfKind.length_leaves (ofKind : node.OfKind source kind) :
    node.children.length ≤ node.leaves.length := by
  have each : ∀ child ∈ node.children, 1 ≤ child.leaves.length := fun child isChild =>
    List.length_pos_iff.mpr ((ofKind.child isChild).leaves_ne_nil (ofKind.kind?_child_ne isChild))
  have lengths := List.length_le_sum_of_one_le (node.children.map fun child => child.leaves.length)
    (List.forall_mem_map.mpr each)
  rw [List.length_map] at lengths
  rw [leaves_eq_flatMap ofKind.isNamed, List.length_flatMap]
  exact lengths

theorem Grammatical.leaves_infix (grammatical : node.Grammatical source) {other : Node}
    (inTree : other ∈ node.walk) : other.leaves <:+: node.leaves := by
  induction grammatical with
  | named kind children row isRow symbols below induction =>
      rcases mem_walk_named.mp inTree with rfl | ⟨child, isChild, inChild⟩
      · exact List.infix_rfl
      · rcases List.append_of_mem isChild with ⟨before, behind, isRow⟩
        have inRow : child.leaves <:+: children.flatMap leaves := by
          rw [isRow, List.flatMap_append, List.flatMap_cons]
          exact List.infix_append' _ _ _
        rw [leaves, leavesOfAll_eq_flatMap]
        exact (induction child isChild inChild).trans inRow
  | token terminal span isText => rw [mem_walk_token.mp inTree]

theorem Grammatical.leaves_sublist (grammatical : node.Grammatical source) {other : Node}
    (inTree : other ∈ node.walk) : other.leaves.Sublist node.leaves :=
  (grammatical.leaves_infix inTree).sublist

/-! ## Spans -/

theorem exists_span_of_mem_leaves {leaf : Node} (isLeaf : leaf ∈ node.leaves) :
    ∃ span, leaf.span? = some span := by
  rw [← filter_walk] at isLeaf
  cases leaf with
  | named label span children => simp [isNamed] at isLeaf
  | token label span => exact ⟨span, rfl⟩

/-- The first and the last leaf of a node. -/
theorem exists_ends (isFull : node.leaves ≠ []) :
    ∃ first last left right, node.leaves.head? = some first ∧ node.leaves.getLast? = some last ∧
      first.span? = some left ∧ last.span? = some right ∧
      cover node.leaves = some ⟨left.start, right.stop⟩ := by
  have isFirst := List.head?_eq_some_head isFull
  have isLast := List.getLast?_eq_some_getLast isFull
  rcases exists_span_of_mem_leaves (List.mem_of_head? isFirst) with ⟨left, isLeft⟩
  rcases exists_span_of_mem_leaves (List.mem_of_getLast? isLast) with ⟨right, isRight⟩
  refine ⟨_, _, left, right, isFirst, isLast, isLeft, isRight, ?_⟩
  rw [cover, isFirst, isLast, Option.bind_some, Option.bind_some, isLeft, isRight]

/-- A row of nodes reaches from its first leaf to its last one, if each of its nodes does. -/
theorem cover_flatMap_leaves {nodes : List Node} (full : ∀ node ∈ nodes, node.leaves ≠ [])
    (spans : ∀ node ∈ nodes, node.span? = cover node.leaves) :
    cover (nodes.flatMap leaves) = cover nodes := by
  cases isHead : nodes.head? with
  | none =>
      rw [List.head?_eq_none_iff.mp isHead]
      rfl
  | some head =>
      rcases List.head?_eq_some_iff.mp isHead with ⟨others, isNodes⟩
      have isFull : nodes ≠ [] := isNodes ▸ List.cons_ne_nil head others
      have isTail := List.getLast?_eq_some_getLast isFull
      rcases List.getLast?_eq_some_iff.mp isTail with ⟨front, isRow⟩
      have inHead := List.mem_of_head? isHead
      have inTail := List.mem_of_getLast? isTail
      rcases exists_ends (full head inHead) with
        ⟨first, _, left, _, isFirst, _, isLeft, _, headCover⟩
      rcases exists_ends (full _ inTail) with ⟨_, last, _, right, _, isLast, _, isRight, tailCover⟩
      have firstLeaf : (nodes.flatMap leaves).head? = some first := by
        rw [isNodes, List.head?_flatMap, List.findSome?_cons, isFirst]
      have lastLeaf : (nodes.flatMap leaves).getLast? = some last := by
        rw [isRow, List.getLast?_flatMap, List.reverse_append, List.reverse_singleton,
          List.singleton_append, List.findSome?_cons, isLast]
      rw [cover, cover, firstLeaf, lastLeaf, isHead, isTail]
      simp only [Option.bind_some, isLeft, isRight, spans head inHead, spans _ inTail, headCover,
        tailCover]

/-- A node reaches from its first leaf to its last one. -/
theorem Grammatical.span?_eq (grammatical : node.Grammatical source) :
    node.span? = cover node.leaves := by
  induction grammatical with
  | named kind children row isRow symbols below induction =>
      have whole := Grammatical.named kind children row isRow symbols below
      rw [leaves_eq_flatMap rfl]
      refine (cover_flatMap_leaves ?_ induction).symm
      intro child isChild
      exact (below child isChild).leaves_ne_nil (whole.kind?_child_ne isChild)
  | token terminal span isText => rfl

theorem Grammatical.notModule_of_mem_walk (grammatical : node.Grammatical source)
    (notModule : node.kind? ≠ some .translationUnit) {part : Node} (inTree : part ∈ node.walk) :
    part.kind? ≠ some .translationUnit := by
  induction grammatical with
  | named kind children row isRow symbols below induction =>
      have whole := Grammatical.named kind children row isRow symbols below
      rcases mem_walk_named.mp inTree with rfl | ⟨child, isChild, inChild⟩
      · exact notModule
      · exact induction child isChild (whole.kind?_child_ne isChild) inChild
  | token terminal span isText => exact mem_walk_token.mp inTree ▸ notModule

/-- The parts of a node reach no further than its leaves. -/
theorem Grammatical.exists_span (grammatical : node.Grammatical source)
    (notModule : node.kind? ≠ some .translationUnit) {bound : Nat}
    (inside : ∀ leaf ∈ node.leaves, (leaf.span source).stop ≤ bound) {part : Node}
    (inTree : part ∈ node.walk) : ∃ span, part.span? = some span ∧ span.stop ≤ bound := by
  have isPart := grammatical.of_mem_walk inTree
  have isFull := isPart.leaves_ne_nil (grammatical.notModule_of_mem_walk notModule inTree)
  rcases exists_ends isFull with ⟨first, last, left, right, -, isLast, -, isRight, isCover⟩
  refine ⟨_, isPart.span?_eq.trans isCover, ?_⟩
  have isInside := inside last
    ((grammatical.leaves_sublist inTree).subset (List.mem_of_getLast? isLast))
  rwa [span, isRight, Option.getD_some] at isInside

/-! ## Texts -/

/-- The leaves of a node stand apart, so two of them take more than one character. -/
theorem Grammatical.two_le_length_chars {root : Node} (grammatical : root.Grammatical source)
    (tiling : Tiling source (root.leaves.map (span source))) (inTree : node ∈ root.walk)
    (several : 2 ≤ node.leaves.length) : 2 ≤ (node.chars source).length := by
  have isFull : node.leaves ≠ [] := List.ne_nil_of_length_pos (by omega)
  rcases exists_ends isFull with
    ⟨first, last, left, right, isFirst, isLast, isLeft, isRight, isCover⟩
  have isSpan : node.span source = ⟨left.start, right.stop⟩ := by
    rw [span, (grammatical.of_mem_walk inTree).span?_eq, isCover, Option.getD_some]
  have inside := (grammatical.leaves_sublist inTree).map (span source)
  have firstSpan : first.span source = left := by rw [span, isLeft, Option.getD_some]
  have lastSpan : last.span source = right := by rw [span, isRight, Option.getD_some]
  have isLeftSpan : left ∈ node.leaves.map (span source) :=
    firstSpan ▸ List.mem_map_of_mem (List.mem_of_head? isFirst)
  have isRightSpan : right ∈ node.leaves.map (span source) :=
    lastSpan ▸ List.mem_map_of_mem (List.mem_of_getLast? isLast)
  have leftFull := tiling.full left (inside.subset isLeftSpan)
  have rightFull := tiling.full right (inside.subset isRightSpan)
  have rightInside := tiling.inside right (inside.subset isRightSpan)
  have inOrder : left.stop ≤ right.start := by
    have ascending := tiling.ascending.sublist inside
    rcases List.head?_eq_some_iff.mp isFirst with ⟨others, isLeaves⟩
    rw [isLeaves, List.length_cons] at several
    rcases List.exists_cons_of_length_pos (show 0 < others.length by omega) with ⟨next, rest, rfl⟩
    rw [isLeaves, List.getLast?_cons_cons] at isLast
    rw [isLeaves, List.map_cons, List.pairwise_cons, firstSpan] at ascending
    exact lastSpan ▸ ascending.1 _ (List.mem_map_of_mem (List.mem_of_getLast? isLast))
  rw [chars, isSpan, Span.slice, List.length_take, List.length_drop]
  simp only
  omega

/-- A node whose row is a choice of tokens has one of them as its only child. -/
theorem OfKind.exists_token (ofKind : node.OfKind source kind)
    (choice : Expansion.isChoice (rightHandSide kind) = true)
    (noParts : Expansion.kinds (rightHandSide kind) = []) :
    ∃ child terminal, node.children = [child] ∧ child.symbol? = some (.terminal terminal) ∧
      .terminal terminal ∈ Expansion.symbols (rightHandSide kind) := by
  rcases ofKind.exists_row with ⟨row, isRow, symbols⟩
  rcases Expansion.exists_eq_singleton isRow choice with ⟨symbol, isSymbol, rfl⟩
  rcases List.map_eq_singleton_iff.mp symbols with ⟨child, isChild, isOnly⟩
  cases symbol with
  | nonterminal inner =>
      rw [Expansion.nonterminal_mem_symbols, noParts] at isSymbol
      cases isSymbol
  | terminal terminal => exact ⟨child, terminal, isChild, isOnly, isSymbol⟩

/-- A node with a single token is written like the token. -/
theorem OfKind.exists_terminal (ofKind : node.OfKind source kind)
    (choice : Expansion.isChoice (rightHandSide kind) = true)
    (noParts : Expansion.kinds (rightHandSide kind) = []) :
    ∃ terminal, .terminal terminal ∈ Expansion.symbols (rightHandSide kind) ∧
      node.chars source ∈ terminal.texts := by
  rcases ofKind.exists_token choice noParts with ⟨child, terminal, isChild, isToken, isSymbol⟩
  refine ⟨terminal, isSymbol, ?_⟩
  cases ofKind.child (isChild ▸ List.mem_singleton_self child) with
  | named => cases isToken
  | token letter place isText =>
      cases isToken
      have isSpan : node.span source = place := by
        rw [span, ofKind.grammatical.span?_eq, leaves_eq_flatMap ofKind.isNamed, isChild]
        rfl
      rw [chars, isSpan]
      exact isText

/-! ## Parentheses -/

theorem singleton_notMem_texts {texts : Texts} {isFirst : Char → Bool} {char : Char}
    (begins : Lexeme.BeginsWith texts isFirst) (notFirst : isFirst char = false) :
    [char] ∉ texts := by
  intro isText
  rcases begins [char] isText with ⟨first, isHead, isClass⟩
  cases isHead
  rw [notFirst] at isClass
  cases isClass

theorem paren_ne_spelling : ∀ char ∈ ['(', ')'], ∀ spelling ∈ spellings,
    spelling.terminal ∈ [Terminal.trueWord, .falseWord, .comma] → spelling.text ≠ [char] := by
  rw [List.forall_mem_cons, List.forall_mem_singleton]
  constructor
  · decide
  · decide

theorem paren_ne_first : ∀ char ∈ ['(', ')'], Lexeme.isWordStart char = false ∧
    char.isDigit = false ∧ Lexeme.isFloatStart char = false ∧ (char == '"') = false := by
  rw [List.forall_mem_cons, List.forall_mem_singleton]
  decide

theorem Grammatical.chars_mem_texts (grammatical : node.Grammatical source) {terminal : Terminal}
    (isToken : node.symbol? = some (.terminal terminal)) :
    node.chars source ∈ terminal.texts := by
  cases grammatical with
  | named => cases isToken
  | token letter place isText =>
      cases isToken
      exact isText

/-- The tokens of keywords and marks are as they are spelled. -/
theorem Grammatical.chars_of_fixed (grammatical : node.Grammatical source) {terminal : Terminal}
    (isToken : node.symbol? = some (.terminal terminal)) (text : String)
    (isFixed : (text, terminal) ∈ fixedSpellings) : node.chars source = text.toList :=
  Lexeme.eq_of_mem_texts text isFixed (grammatical.chars_mem_texts isToken)

/-- The kinds of expressions that are a single token. -/
def words : List Kind := [.identifier, .intLiteral, .floatLiteral, .boolLiteral, .stringLiteral]

theorem OfKind.chars_ne_of_mem_words (ofKind : node.OfKind source kind) (isWord : kind ∈ words)
    {char : Char} (isParen : char ∈ ['(', ')']) : node.chars source ≠ [char] := by
  intro isText
  rcases paren_ne_first char isParen with ⟨noWord, noDigit, noFloat, noQuote⟩
  simp only [words, List.mem_cons, List.not_mem_nil, or_false] at isWord
  rcases isWord with rfl | rfl | rfl | rfl | rfl
  all_goals
    rcases ofKind.exists_terminal rfl rfl with ⟨terminal, isTerminal, isMember⟩
    rw [isText] at isMember
  · cases List.mem_singleton.mp isTerminal
    exact singleton_notMem_texts Lexeme.beginsWith_identifier noWord isMember
  · cases List.mem_singleton.mp isTerminal
    exact singleton_notMem_texts Lexeme.beginsWith_int noDigit isMember
  · cases List.mem_singleton.mp isTerminal
    exact singleton_notMem_texts Lexeme.beginsWith_float noFloat isMember
  · rcases List.mem_pair.mp isTerminal with isTrue | isFalse
    · cases isTrue
      exact paren_ne_spelling char isParen _ isMember (by simp) rfl
    · cases isFalse
      exact paren_ne_spelling char isParen _ isMember (by simp) rfl
  · cases List.mem_singleton.mp isTerminal
    exact singleton_notMem_texts Lexeme.beginsWith_string noQuote isMember

/-- What can stand in a list of arguments: a comma, a single token, or something longer. -/
def isArgument : Grammar.Symbol Terminal Kind → Bool
  | .terminal terminal => terminal == .comma
  | .nonterminal kind => words.contains kind || Expansion.atLeast (rightHandSide kind) 2

theorem isArgument_of_mem_symbols : ∀ symbol ∈
    Expansion.symbols (Expansion.maybe (Expansion.listed Expansion.expression)),
      isArgument symbol = true := by
  decide

/-- Nothing in a list of arguments is written as a lone parenthesis. -/
theorem Grammatical.chars_ne_paren {root : Node} (grammatical : root.Grammatical source)
    (tiling : Tiling source (root.leaves.map (span source))) (inTree : node ∈ root.walk)
    {symbol : Grammar.Symbol Terminal Kind} (isSymbol : node.symbol? = some symbol)
    (argument : isArgument symbol = true) {char : Char} (isParen : char ∈ ['(', ')']) :
    node.chars source ≠ [char] := by
  have nodeGrammatical := grammatical.of_mem_walk inTree
  cases symbol with
  | terminal terminal =>
      cases beq_iff_eq.mp argument
      exact paren_ne_spelling char isParen _ (nodeGrammatical.chars_mem_texts isSymbol) (by simp)
  | nonterminal kind =>
      rcases symbol?_eq_nonterminal.mp isSymbol with ⟨isNamed, isKind⟩
      have ofKind : node.OfKind source kind := ⟨nodeGrammatical, isNamed, isKind⟩
      rcases Bool.or_eq_true_iff.mp argument with isWord | isLong
      · exact ofKind.chars_ne_of_mem_words (List.contains_iff_mem.mp isWord) isParen
      · intro isText
        have several := Nat.le_trans (ofKind.length_children isLong) ofKind.length_leaves
        have long := grammatical.two_le_length_chars tiling inTree several
        rw [isText, List.length_singleton] at long
        omega

/-- Nothing that can stand in a list of arguments is written as a lone parenthesis, in a node and
below it. -/
def Plain (source : List Char) (node : Node) : Prop :=
  ∀ other ∈ node.walk, ∀ symbol, other.symbol? = some symbol → isArgument symbol = true →
    ∀ char ∈ ['(', ')'], other.chars source ≠ [char]

theorem mem_walk_self (node : Node) : node ∈ node.walk := by
  cases node with
  | named label span children => exact mem_walk_named.mpr (.inl rfl)
  | token label span => exact mem_walk_token.mpr rfl

theorem mem_walk_of_child {child other : Node} (isChild : child ∈ node.children)
    (isBelow : other ∈ child.walk) : other ∈ node.walk := by
  cases node with
  | named label span children => exact mem_walk_named.mpr (.inr ⟨child, isChild, isBelow⟩)
  | token label span => cases isChild

theorem Plain.child (plain : node.Plain source) {child : Node} (isChild : child ∈ node.children) :
    child.Plain source :=
  fun other inChild => plain other (mem_walk_of_child isChild inChild)

theorem Plain.of_mem_walk (plain : node.Plain source) (grammatical : node.Grammatical source)
    {other : Node} (isBelow : other ∈ node.walk) : other.Plain source := by
  induction grammatical with
  | named kind children row isRow symbols below induction =>
      rcases mem_walk_named.mp isBelow with rfl | ⟨child, isChild, inChild⟩
      · exact plain
      · exact induction child isChild (plain.child isChild) inChild
  | token terminal span isText =>
      rw [mem_walk_token.mp isBelow]
      exact plain

theorem plain_of_parse {tree : SyntaxTree} (accepted : SyntaxTree.parse source = .ok tree) :
    tree.root.Plain source := by
  intro other inTree symbol isSymbol argument char isParen
  exact (grammatical_of_parse accepted).2.1.chars_ne_paren (tiling_of_parse accepted) inTree
    isSymbol argument isParen

end Node

end ShaderReflection.Tree

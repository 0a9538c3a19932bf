import ShaderReflection.Proofs.Tree.Shape

/-!
# Parts of a node

The parts of a node are its children of one kind. For some kinds there is one part or none, which a
right-hand side tells; and some kinds occur in no right-hand side but that of a module.
-/

namespace ShaderReflection.Tree

open ShaderReflection.Grammar ShaderReflection.Wgsl ShaderReflection.Text

/-! ## Rows of a right-hand side -/

namespace Expansion

/-- Whether no row has more than one child of a kind. -/
def atMostOnce (kind : Kind) : Expansion → Bool
  | .zero => true
  | .epsilon => true
  | .char _ => true
  | .plus left right => atMostOnce kind left && atMostOnce kind right
  | .comp left right =>
      (atMostOnce kind left && decide (kind ∉ kinds right)) ||
        (decide (kind ∉ kinds left) && atMostOnce kind right)
  | .star inner => decide (kind ∉ kinds inner)

variable {expansion : Expansion} {row : List (Grammar.Symbol Terminal Kind)} {kind : Kind}

theorem count_eq_zero (isRow : row ∈ expansion.matches') (absent : kind ∉ kinds expansion) :
    row.count (.nonterminal kind) = 0 := by
  apply List.count_eq_zero.mpr
  intro isPart
  exact absent (mem_kinds isRow isPart)

theorem count_le_one (isRow : row ∈ expansion.matches')
    (single : atMostOnce kind expansion = true) : row.count (.nonterminal kind) ≤ 1 := by
  induction expansion generalizing row with
  | zero => cases isRow
  | epsilon =>
      cases isRow
      exact Nat.zero_le 1
  | char symbol =>
      cases isRow
      exact List.count_le_length
  | plus left right inLeft inRight =>
      rcases Bool.and_eq_true_iff.mp single with ⟨leftSingle, rightSingle⟩
      rcases isRow with isLeft | isRight
      · exact inLeft isLeft leftSingle
      · exact inRight isRight rightSingle
  | comp left right inLeft inRight =>
      rcases Language.mem_mul.mp isRow with ⟨front, isFront, back, isBack, rfl⟩
      rw [List.count_append]
      simp only [atMostOnce, Bool.or_eq_true, Bool.and_eq_true, decide_eq_true_eq] at single
      rcases single with ⟨leftSingle, noRight⟩ | ⟨noLeft, rightSingle⟩
      · rw [count_eq_zero isBack noRight]
        exact inLeft isFront leftSingle
      · rw [count_eq_zero isFront noLeft, Nat.zero_add]
        exact inRight isBack rightSingle
  | star inner induction =>
      have absent : kind ∉ kinds (.star inner) := of_decide_eq_true single
      rw [count_eq_zero isRow absent]
      exact Nat.zero_le 1

/-- Whether every row is a choice of one symbol. -/
def isChoice : Expansion → Bool
  | .zero => true
  | .char _ => true
  | .plus left right => isChoice left && isChoice right
  | _ => false

theorem exists_eq_singleton (isRow : row ∈ expansion.matches')
    (choice : isChoice expansion = true) : ∃ symbol ∈ symbols expansion, row = [symbol] := by
  induction expansion with
  | zero => cases isRow
  | epsilon => cases choice
  | char only =>
      cases isRow
      exact ⟨only, List.mem_singleton_self only, rfl⟩
  | plus left right inLeft inRight =>
      rcases Bool.and_eq_true_iff.mp choice with ⟨leftChoice, rightChoice⟩
      rcases isRow with isLeft | isRight
      · rcases inLeft isLeft leftChoice with ⟨symbol, isSymbol, isOnly⟩
        exact ⟨symbol, List.mem_append_left _ isSymbol, isOnly⟩
      · rcases inRight isRight rightChoice with ⟨symbol, isSymbol, isOnly⟩
        exact ⟨symbol, List.mem_append_right _ isSymbol, isOnly⟩
  | comp left right => cases choice
  | star inner => cases choice

/-- A list of arguments begins with an expression, which is a node. -/
theorem head?_arguments (isRow : row ∈ (maybe (listed expression)).matches') :
    ∀ symbol ∈ row.head?, ∃ kind, symbol = .nonterminal kind := by
  rcases isRow with rfl | isListed
  · simp
  rcases Language.mem_mul.mp isListed with ⟨front, isFront, last, -, rfl⟩
  rcases Language.mem_mul.mp isFront with ⟨first, isFirst, others, -, rfl⟩
  rcases exists_eq_singleton isFirst rfl with ⟨symbol, isSymbol, rfl⟩
  have isKind : symbol ∈ (kinds expression).map .nonterminal := isSymbol
  rcases List.mem_map.mp isKind with ⟨kind, -, rfl⟩
  simp

end Expansion

namespace Node

variable {source : List Char} {node : Node} {kind inner : Kind}

/-! ## Parts of one kind -/

/-- The nodes of a kind in a row. -/
def among (kind : Kind) (nodes : List Node) : List Node :=
  nodes.filter fun node => node.kind? == some kind

/-- The children of a kind. -/
def parts (node : Node) (kind : Kind) : List Node := among kind node.children

theorem among_concat_of_eq (isKind : node.kind? = some kind) (nodes : List Node) :
    among kind (nodes ++ [node]) = among kind nodes ++ [node] := by
  simp [among, isKind]

theorem among_concat_of_ne (isInner : node.kind? = some inner) (different : inner ≠ kind)
    (nodes : List Node) : among kind (nodes ++ [node]) = among kind nodes := by
  simp [among, isInner, different]

/-- Parts are named, so tokens can be left out before they are looked for. -/
theorem among_namedChildren (isNode : kind ≠ .anonymous) :
    among kind node.namedChildren = node.parts kind := by
  rw [among, namedChildren, parts, among, List.filter_filter]
  apply List.filter_congr
  intro child _
  by_cases isKind : child.kind? = some kind
  · simp [isKind, isNamed_of_kind? isNode isKind]
  · simp [isKind]

theorem OfKind.part (ofKind : node.OfKind source kind) (isNode : inner ≠ .anonymous) {child : Node}
    (isPart : child ∈ node.parts inner) : child.OfKind source inner := by
  rcases List.mem_filter.mp isPart with ⟨isChild, isKind⟩
  have isInner := beq_iff_eq.mp isKind
  exact ⟨ofKind.child isChild, isNamed_of_kind? isNode isInner, isInner⟩

theorem OfKind.exists_count (ofKind : node.OfKind source kind) (isNode : inner ≠ .anonymous) :
    ∃ row ∈ (rightHandSide kind).matches',
      (node.parts inner).length = row.count (.nonterminal inner) := by
  rcases ofKind.exists_row with ⟨row, isRow, symbols⟩
  refine ⟨row, isRow, ?_⟩
  have counts := congrArg (List.count (some (.nonterminal inner))) symbols
  rw [List.count_map_of_injective row some (Option.some_injective _)] at counts
  rw [← counts, parts, among, ← List.countP_eq_length_filter, List.count, List.countP_map]
  apply List.countP_congr
  intro child _
  simp only [Function.comp_apply, beq_iff_eq, symbol?_eq_nonterminal]
  exact ⟨fun isKind => ⟨isNamed_of_kind? isNode isKind, isKind⟩, And.right⟩

theorem OfKind.parts_eq_nil_or (ofKind : node.OfKind source kind) (inner : Kind)
    (isNode : inner ≠ .anonymous)
    (single : Expansion.atMostOnce inner (rightHandSide kind) = true) :
    node.parts inner = [] ∨ ∃ child, node.parts inner = [child] ∧ child.OfKind source inner := by
  rcases ofKind.exists_count isNode with ⟨row, isRow, isCount⟩
  have bound := Expansion.count_le_one isRow single
  rw [← isCount] at bound
  rcases Nat.le_one_iff_eq_zero_or_eq_one.mp bound with isEmpty | isOne
  · exact .inl (List.length_eq_zero_iff.mp isEmpty)
  · rcases List.length_eq_one_iff.mp isOne with ⟨child, isOnly⟩
    exact .inr ⟨child, isOnly, ofKind.part isNode (isOnly ▸ List.mem_singleton_self child)⟩

theorem OfKind.parts_eq_singleton (ofKind : node.OfKind source kind) (inner : Kind)
    (isNode : inner ≠ .anonymous)
    (single : Expansion.atMostOnce inner (rightHandSide kind) = true)
    (needed : Expansion.needs inner (rightHandSide kind) = true) :
    ∃ child, node.parts inner = [child] ∧ child.OfKind source inner := by
  rcases ofKind.parts_eq_nil_or inner isNode single with isEmpty | isOne
  · rcases ofKind.exists_child inner needed with ⟨child, isChild, isOfKind⟩
    have isPart : child ∈ node.parts inner :=
      List.mem_filter.mpr ⟨(List.mem_filter.mp isChild).1, beq_iff_eq.mpr isOfKind.isKind⟩
    rw [isEmpty] at isPart
    cases isPart
  · exact isOne

theorem OfKind.firstOfKind_eq_head? (ofKind : node.OfKind source kind) (inner : Kind) :
    firstOfKind inner node.children = .ok (node.parts inner).head? := by
  rw [firstOfKind_eq fun child => ofKind.child, parts, among, List.head?_filter]

/-- A field is the first part of its kind. -/
theorem OfKind.field_eq_head? (ofKind : node.OfKind source kind) (name : String)
    (isField : kind.field? name = some inner) :
    node.field name = .ok (node.parts inner).head? := by
  rw [ofKind.field_eq name isField, parts, among, List.head?_filter]

/-! ## Attributes -/

/-- An attribute with its name and with what stands between its parentheses. -/
inductive UsesAttribute (node name : Node) : (inside : List Node) → Prop
  | bare {sign : Node} (isSign : sign.symbol? = some (.terminal .atSign))
      (isName : name.symbol? = some (.nonterminal .identifier))
      (children : node.children = [sign, name]) : UsesAttribute node name []
  | called {sign opening closing : Node} {inside : List Node}
      (isSign : sign.symbol? = some (.terminal .atSign))
      (isName : name.symbol? = some (.nonterminal .identifier))
      (isOpening : opening.symbol? = some (.terminal .leftParen))
      (isClosing : closing.symbol? = some (.terminal .rightParen))
      (children : node.children = sign :: name :: opening :: (inside ++ [closing])) :
      UsesAttribute node name inside

theorem UsesAttribute.mem_children {name part : Node} {inside : List Node}
    (uses : node.UsesAttribute name inside) (isPart : part ∈ inside) : part ∈ node.children := by
  cases uses with
  | bare => cases isPart
  | called _ _ _ _ children =>
      rw [children]
      simp [isPart]

/-- What stands between the parentheses of an attribute spells a list of expressions, if there is
anything. -/
theorem OfKind.exists_arguments (ofKind : node.OfKind source .attributeUse) :
    ∃ name inside, node.UsesAttribute name inside ∧
      ∃ row ∈ (Expansion.maybe (Expansion.listed Expansion.expression)).matches',
        inside.map symbol? = row.map some := by
  rcases ofKind.exists_row with ⟨row, isRow, symbols⟩
  rcases Language.mem_mul.mp isRow with ⟨front, isFront, back, isBack, rfl⟩
  rcases Language.mem_mul.mp isFront with ⟨_, rfl, _, rfl, rfl⟩
  rcases List.map_eq_cons_iff.mp symbols with ⟨sign, others, children, isSign, isOthers⟩
  rcases List.map_eq_cons_iff.mp isOthers with ⟨name, others, rfl, isName, isOthers⟩
  rcases isBack with rfl | isCalled
  · rcases List.map_eq_nil_iff.mp isOthers with rfl
    exact ⟨name, [], .bare isSign isName children, [], .inl rfl, rfl⟩
  rcases Language.mem_mul.mp isCalled with ⟨front, isFront, _, rfl, rfl⟩
  rcases Language.mem_mul.mp isFront with ⟨_, rfl, arguments, isArguments, rfl⟩
  rcases List.map_eq_cons_iff.mp isOthers with ⟨opening, others, rfl, isOpening, isOthers⟩
  have isRest : others.map symbol? = arguments.map some ++ [some (.terminal .rightParen)] := by
    rw [isOthers]
    exact List.map_append
  rcases List.map_eq_append_iff.mp isRest with ⟨inside, last, rfl, isInside, isLast⟩
  rcases List.map_eq_singleton_iff.mp isLast with ⟨closing, rfl, isClosing⟩
  exact ⟨name, inside, .called isSign isName isOpening isClosing children, arguments, isArguments,
    isInside⟩

/-- Between the parentheses stand expressions and commas, an expression first. -/
theorem OfKind.exists_usesAttribute (ofKind : node.OfKind source .attributeUse) :
    ∃ name inside, node.UsesAttribute name inside ∧
      (∀ part ∈ inside, part ∈ node.children ∧
        ∃ symbol ∈ Expansion.symbols (Expansion.listed Expansion.expression),
          part.symbol? = some symbol) ∧
      ∀ part ∈ inside.head?, part.isNamed = true := by
  rcases ofKind.exists_arguments with ⟨name, inside, uses, row, isRow, isInside⟩
  refine ⟨name, inside, uses, ?_, ?_⟩
  · intro part isPart
    have isSymbol : part.symbol? ∈ row.map some := isInside ▸ List.mem_map_of_mem isPart
    rcases List.mem_map.mp isSymbol with ⟨symbol, inRow, isSymbol⟩
    have isKnown := Expansion.mem_symbols isRow inRow
    exact ⟨uses.mem_children isPart, symbol, isKnown, isSymbol.symm⟩
  · intro part isPart
    rcases List.head?_eq_some_iff.mp isPart with ⟨others, rfl⟩
    rcases List.map_eq_cons_iff.mp isInside.symm with ⟨symbol, rest, rfl, isSymbol, -⟩
    rcases Expansion.head?_arguments isRow symbol rfl with ⟨kind, rfl⟩
    exact (symbol?_eq_nonterminal.mp isSymbol.symm).1

theorem isNamed_of_symbol? {terminal : Terminal}
    (isToken : node.symbol? = some (.terminal terminal)) : node.isNamed = false := by
  cases node with
  | named label span children =>
      rcases Option.map_eq_some_iff.mp isToken with ⟨kind, -, isOther⟩
      cases isOther
  | token label span => rfl

theorem UsesAttribute.namedChildren {name : Node} {inside : List Node}
    (uses : node.UsesAttribute name inside) :
    node.namedChildren = name :: inside.filter isNamed := by
  cases uses with
  | bare isSign isName children =>
      have named := (symbol?_eq_nonterminal.mp isName).1
      simp [Node.namedChildren, children, isNamed_of_symbol? isSign, named]
  | called isSign isName isOpening isClosing children =>
      have named := (symbol?_eq_nonterminal.mp isName).1
      simp [Node.namedChildren, children, isNamed_of_symbol? isSign, named,
        isNamed_of_symbol? isOpening, isNamed_of_symbol? isClosing]

/-! ## Declarations of a module -/

/-- The kinds of declarations that reflection reads. -/
def declarations : List Kind :=
  [.structDeclaration, .functionDeclaration, .globalVariableDeclaration]

theorem notMem_kinds_of_mem_declarations (isDeclaration : kind ∈ declarations) {outer : Kind}
    (notModule : outer ≠ .translationUnit) : kind ∉ Expansion.kinds (rightHandSide outer) := by
  have all : ∀ kind ∈ declarations, kind ∉ Expansion.kinds (rightHandSide outer) := by
    revert notModule
    cases outer <;> decide
  exact all kind isDeclaration

theorem translationUnit_notMem_kinds (outer : Kind) :
    .translationUnit ∉ Expansion.kinds (rightHandSide outer) := by
  cases outer <;> decide

theorem OfKind.kind?_child_ne (ofKind : node.OfKind source kind) {child : Node}
    (isChild : child ∈ node.children) : child.kind? ≠ some .translationUnit := by
  intro isModule
  have isNamed := isNamed_of_kind? (by decide) isModule
  exact translationUnit_notMem_kinds kind (ofKind.mem_kinds isChild isNamed isModule)

theorem Grammatical.kind?_child_ne (grammatical : node.Grammatical source) {child : Node}
    (isChild : child ∈ node.children) : child.kind? ≠ some .translationUnit := by
  rcases grammatical.exists_kind with ⟨kind, isKind, -⟩
  cases grammatical with
  | named inner children row isRow symbols below =>
      have ofKind : OfKind source kind (Node.named (.known inner) (cover children) children) :=
        ⟨.named inner children row isRow symbols below, rfl, isKind⟩
      exact ofKind.kind?_child_ne isChild
  | token terminal span isText => cases isChild

theorem isNamed_of_mem_declarations (isDeclaration : kind ∈ declarations)
    (isKind : node.kind? = some kind) : node.isNamed = true := by
  apply isNamed_of_kind? _ isKind
  rintro rfl
  revert isDeclaration
  decide

/-- Below a node other than a module there are no declarations of a module. -/
theorem Grammatical.among_walk (grammatical : node.Grammatical source)
    (notModule : node.kind? ≠ some .translationUnit) (isDeclaration : kind ∈ declarations) :
    among kind node.walk = among kind [node] := by
  induction grammatical with
  | named outer children row isRow symbols below induction =>
      have ofKind : OfKind source outer (Node.named (.known outer) (cover children) children) :=
        ⟨.named outer children row isRow symbols below, rfl, rfl⟩
      have isOuter : outer ≠ .translationUnit := fun isModule => notModule (isModule ▸ rfl)
      have nothing : among kind (children.flatMap walk) = [] := by
        rw [among, List.filter_flatMap, List.flatMap_eq_nil_iff]
        intro child isChild
        rw [← among, induction child isChild, among, List.filter_eq_nil_iff,
          List.forall_mem_singleton]
        · intro isSame
          have isKind := beq_iff_eq.mp isSame
          have isNamed := isNamed_of_mem_declarations isDeclaration isKind
          exact notMem_kinds_of_mem_declarations isDeclaration isOuter
            (ofKind.mem_kinds isChild isNamed isKind)
        · exact ofKind.kind?_child_ne isChild
      rw [walk_named, ← List.singleton_append, among, List.filter_append, ← among, ← among, nothing,
        List.append_nil]
  | token terminal span isText => rfl

/-- The declarations in a module are its children. -/
theorem OfKind.among_walk (ofKind : node.OfKind source .translationUnit)
    (isDeclaration : kind ∈ declarations) : among kind node.walk = node.parts kind := by
  have below : ∀ child ∈ node.children, among kind child.walk = among kind [child] := by
    intro child isChild
    exact (ofKind.child isChild).among_walk (ofKind.kind?_child_ne isChild) isDeclaration
  have notSelf : (node.kind? == some kind) = false := by
    rw [ofKind.isKind]
    revert isDeclaration
    cases kind <;> decide
  cases node with
  | named label span children =>
      rw [Node.children] at below
      rw [among, walk_named, List.filter_cons_of_neg (by simp [notSelf]), List.filter_flatMap]
      refine (List.flatMap_congr below).trans ?_
      calc
        children.flatMap (fun child => among kind [child])
            = among kind (children.flatMap fun child => [child]) := List.filter_flatMap.symm
        _ = among kind children := by rw [List.flatMap_singleton']
  | token label span => cases ofKind.isNamed

end Node

end ShaderReflection.Tree

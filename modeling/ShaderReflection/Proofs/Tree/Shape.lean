import ShaderReflection.Fault
import ShaderReflection.Proofs.Tree.Soundness

/-!
# Which children a node can and must have

Two questions about a right-hand side have simple answers: what occurs in it, and what no row of it
does without. They are all that readers of a syntax tree rely on.
-/

namespace ShaderReflection.Tree

open ShaderReflection.Grammar ShaderReflection.Wgsl ShaderReflection.Text

/-! ## Rows of a right-hand side -/

namespace Expansion

def kinds : Expansion → List Kind
  | .zero => []
  | .epsilon => []
  | .char (.terminal _) => []
  | .char (.nonterminal kind) => [kind]
  | .plus left right => kinds left ++ kinds right
  | .comp left right => kinds left ++ kinds right
  | .star inner => kinds inner

/-- Whether every row has a child of a kind. -/
def needs (kind : Kind) : Expansion → Bool
  | .zero => true
  | .epsilon => false
  | .char symbol => decide (symbol = .nonterminal kind)
  | .plus left right => needs kind left && needs kind right
  | .comp left right => needs kind left || needs kind right
  | .star _ => false

/-- All that can stand in a row. -/
def symbols : Expansion → List (Grammar.Symbol Terminal Kind)
  | .zero => []
  | .epsilon => []
  | .char symbol => [symbol]
  | .plus left right => symbols left ++ symbols right
  | .comp left right => symbols left ++ symbols right
  | .star inner => symbols inner

theorem mem_symbols {expansion : Expansion} {row : List (Grammar.Symbol Terminal Kind)}
    {symbol : Grammar.Symbol Terminal Kind} (isRow : row ∈ expansion.matches')
    (isPart : symbol ∈ row) : symbol ∈ symbols expansion := by
  induction expansion generalizing row with
  | zero => cases isRow
  | epsilon =>
      cases isRow
      cases isPart
  | char only =>
      cases isRow
      exact isPart
  | plus left right inLeft inRight =>
      obtain isLeft | isRight := isRow
      · exact List.mem_append_left _ (inLeft isLeft isPart)
      · exact List.mem_append_right _ (inRight isRight isPart)
  | comp left right inLeft inRight =>
      obtain ⟨front, isFront, back, isBack, rfl⟩ := Language.mem_mul.mp isRow
      obtain inFront | inBack := List.mem_append.mp isPart
      · exact List.mem_append_left _ (inLeft isFront inFront)
      · exact List.mem_append_right _ (inRight isBack inBack)
  | star inner induction =>
      obtain ⟨pieces, rfl, each⟩ := Language.mem_kstar.mp isRow
      obtain ⟨piece, isPiece, inPiece⟩ := List.mem_flatten.mp isPart
      exact induction (each piece isPiece) inPiece

theorem nonterminal_mem_symbols {expansion : Expansion} {kind : Kind} :
    .nonterminal kind ∈ symbols expansion ↔ kind ∈ kinds expansion := by
  induction expansion with
  | zero => simp [symbols, kinds]
  | epsilon => simp [symbols, kinds]
  | char symbol => cases symbol <;> simp [symbols, kinds]
  | plus left right inLeft inRight => simp [symbols, kinds, inLeft, inRight]
  | comp left right inLeft inRight => simp [symbols, kinds, inLeft, inRight]
  | star inner induction => simp [symbols, kinds, induction]

theorem mem_kinds {expansion : Expansion} {row : List (Grammar.Symbol Terminal Kind)} {kind : Kind}
    (isRow : row ∈ expansion.matches') (isPart : .nonterminal kind ∈ row) :
    kind ∈ kinds expansion :=
  nonterminal_mem_symbols.mp (mem_symbols isRow isPart)

theorem mem_of_needs {expansion : Expansion} {row : List (Grammar.Symbol Terminal Kind)}
    {kind : Kind} (isRow : row ∈ expansion.matches') (needed : needs kind expansion = true) :
    .nonterminal kind ∈ row := by
  induction expansion generalizing row with
  | zero => cases isRow
  | epsilon => cases needed
  | char symbol =>
      cases isRow
      rw [of_decide_eq_true needed]
      exact List.mem_singleton_self _
  | plus left right inLeft inRight =>
      rcases Bool.and_eq_true_iff.mp needed with ⟨leftNeeds, rightNeeds⟩
      rcases isRow with isLeft | isRight
      · exact inLeft isLeft leftNeeds
      · exact inRight isRight rightNeeds
  | comp left right inLeft inRight =>
      rcases Language.mem_mul.mp isRow with ⟨front, isFront, back, isBack, rfl⟩
      rcases Bool.or_eq_true_iff.mp needed with leftNeeds | rightNeeds
      · exact List.mem_append_left _ (inLeft isFront leftNeeds)
      · exact List.mem_append_right _ (inRight isBack rightNeeds)
  | star inner induction => cases needed

end Expansion

/-! ## Children of a node -/

namespace Node

variable {source : List Char} {node : Node} {kind : Kind}

theorem symbol?_eq_nonterminal {node : Node} {kind : Kind} :
    node.symbol? = some (.nonterminal kind) ↔ node.isNamed = true ∧ node.kind? = some kind := by
  rcases node with ⟨label, span, children⟩ | ⟨_ | _, span⟩ <;> simp [symbol?, isNamed]

theorem kind_eq_ok : node.kind = .ok kind ↔ node.kind? = some kind := by
  rcases node with ⟨known | name, span, children⟩ | ⟨label, span⟩
  · simp [Node.kind, kind?]
  · rw [Node.kind, kind?]
    cases Kind.ofName? name <;> simp
  · simp [Node.kind, kind?]

/-- Only tokens are anonymous. -/
theorem isNamed_of_kind? (isNode : kind ≠ .anonymous) (isKind : node.kind? = some kind) :
    node.isNamed = true := by
  cases node with
  | named label span children => rfl
  | token label span =>
      cases isKind
      exact absurd rfl isNode

theorem Grammatical.exists_kind (grammatical : node.Grammatical source) :
    ∃ kind, node.kind? = some kind ∧ node.kind = .ok kind := by
  cases grammatical with
  | named inner children row isRow symbols below => exact ⟨inner, rfl, rfl⟩
  | token terminal span isText => exact ⟨.anonymous, rfl, rfl⟩

/-- A named node of a kind in a derivation tree. -/
structure OfKind (source : List Char) (kind : Kind) (node : Node) : Prop where
  grammatical : node.Grammatical source
  isNamed : node.isNamed = true
  isKind : node.kind? = some kind

theorem OfKind.kind_eq (ofKind : node.OfKind source kind) : node.kind = .ok kind := by
  rcases ofKind.grammatical.exists_kind with ⟨inner, isInner, isOk⟩
  rw [ofKind.isKind] at isInner
  cases isInner
  exact isOk

theorem OfKind.child (ofKind : node.OfKind source kind) {child : Node}
    (isChild : child ∈ node.children) : child.Grammatical source := by
  cases ofKind.grammatical with
  | named inner children row isRow symbols below => exact below child isChild
  | token terminal span isText => cases isChild

/-- The children of a node spell a row of its right-hand side. -/
theorem OfKind.exists_row (ofKind : node.OfKind source kind) :
    ∃ row ∈ (rightHandSide kind).matches', node.children.map symbol? = row.map some := by
  have isKind := ofKind.isKind
  have isNamed := ofKind.isNamed
  cases ofKind.grammatical with
  | named inner children row isRow symbols below =>
      cases isKind
      exact ⟨row, isRow, symbols⟩
  | token terminal span isText => cases isNamed

/-- The kind of a named child occurs in the right-hand side. -/
theorem OfKind.mem_kinds (ofKind : node.OfKind source kind) {child : Node}
    (isChild : child ∈ node.children) (isNamed : child.isNamed = true) {inner : Kind}
    (isInner : child.kind? = some inner) : inner ∈ Expansion.kinds (rightHandSide kind) := by
  rcases ofKind.exists_row with ⟨row, isRow, symbols⟩
  have isSymbol : some (.nonterminal inner) ∈ row.map some := by
    rw [← symbols, ← symbol?_eq_nonterminal.mpr ⟨isNamed, isInner⟩]
    exact List.mem_map_of_mem isChild
  rcases List.mem_map.mp isSymbol with ⟨symbol, inRow, equal⟩
  cases equal
  exact Expansion.mem_kinds isRow inRow

/-- A named child is of one of the kinds in the right-hand side. -/
theorem OfKind.exists_kind (ofKind : node.OfKind source kind) (list : List Kind)
    (all : ((Expansion.kinds (rightHandSide kind)).all fun inner => list.contains inner) = true)
    {child : Node} (isChild : child ∈ node.namedChildren) :
    ∃ inner ∈ list, child.OfKind source inner := by
  rcases List.mem_filter.mp isChild with ⟨inChildren, isNamed⟩
  have grammatical := ofKind.child inChildren
  rcases grammatical.exists_kind with ⟨inner, isInner, -⟩
  refine ⟨inner, ?_, grammatical, isNamed, isInner⟩
  apply List.contains_iff_mem.mp
  exact List.all_eq_true.mp all inner (ofKind.mem_kinds inChildren isNamed isInner)

theorem OfKind.exists_child (ofKind : node.OfKind source kind) (inner : Kind)
    (needed : Expansion.needs inner (rightHandSide kind) = true) :
    ∃ child ∈ node.namedChildren, child.OfKind source inner := by
  rcases ofKind.exists_row with ⟨row, isRow, symbols⟩
  have inRow := Expansion.mem_of_needs isRow needed
  have isSymbol : some (.nonterminal inner) ∈ node.children.map symbol? := by
    rw [symbols]
    exact List.mem_map_of_mem inRow
  rcases List.mem_map.mp isSymbol with ⟨child, isChild, equal⟩
  rcases symbol?_eq_nonterminal.mp equal with ⟨isNamed, isInner⟩
  exact ⟨child, List.mem_filter.mpr ⟨isChild, isNamed⟩, ofKind.child isChild, isNamed, isInner⟩

/-! ## Fields -/

theorem firstOfKind_eq {children : List Node}
    (grammatical : ∀ child ∈ children, child.Grammatical source) :
    firstOfKind kind children = .ok (children.find? fun child => child.kind? == some kind) := by
  induction children with
  | nil => rfl
  | cons child children induction =>
      rcases List.forall_mem_cons.mp grammatical with ⟨first, others⟩
      rcases first.exists_kind with ⟨inner, isInner, isOk⟩
      rw [firstOfKind, isOk, List.find?_cons, isInner]
      by_cases same : inner = kind
      · simp [same, bind, Except.bind]
      · have different : (some inner == some kind) = false := by simp [same]
        rw [different]
        simp [same, bind, Except.bind, induction others]

/-- The first child of a kind other than that of tokens is a node of that kind. -/
theorem OfKind.of_find? (ofKind : node.OfKind source kind) {inner : Kind} {child : Node}
    (isNode : inner ≠ .anonymous)
    (found : (node.children.find? fun child => child.kind? == some inner) = some child) :
    child.OfKind source inner := by
  have isInner : child.kind? = some inner := by simpa using List.find?_some found
  exact ⟨ofKind.child (List.mem_of_find?_eq_some found), isNamed_of_kind? isNode isInner, isInner⟩

theorem OfKind.field_eq (ofKind : node.OfKind source kind) (name : String) {inner : Kind}
    (isField : kind.field? name = some inner) :
    node.field name = .ok (node.children.find? fun child => child.kind? == some inner) := by
  rw [field, ofKind.kind_eq]
  simp only [bind, Except.bind, isField]
  exact firstOfKind_eq fun child isChild => ofKind.child isChild

theorem OfKind.exists_field (ofKind : node.OfKind source kind) (name : String) {inner : Kind}
    (isField : kind.field? name = some inner)
    (needed : Expansion.needs inner (rightHandSide kind) = true) :
    ∃ child, node.field name = .ok (some child) := by
  rw [ofKind.field_eq name isField]
  rcases ofKind.exists_child inner needed with ⟨child, isChild, isOfKind⟩
  have found : (node.children.find? fun child => child.kind? == some inner).isSome := by
    rw [List.find?_isSome]
    exact ⟨child, (List.mem_filter.mp isChild).1, by simp [isOfKind.isKind]⟩
  rcases Option.isSome_iff_exists.mp found with ⟨first, isFirst⟩
  exact ⟨first, by rw [isFirst]⟩

end Node

end ShaderReflection.Tree

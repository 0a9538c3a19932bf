import ShaderReflection.Proofs.Reflection.Reflect
import ShaderReflection.Proofs.Tree.Covering

/-!
# Arguments of attributes

Between the parentheses of an attribute stand expressions with commas between them. An attribute of
a function is read with all of them, an attribute of a member or parameter with the first one only.
So the two readings differ as soon as there is a comma (`attributes_of_parse`).
-/

namespace ShaderReflection.Tree.Node

open ShaderReflection.Grammar ShaderReflection.Wgsl

variable {source : List Char} {node name : Node} {row arguments inside : List Node}
  {trailing : Bool}

/-! ## Lists of expressions -/

def IsExpression (node : Node) : Prop :=
  ∃ kind ∈ Expansion.kinds Expansion.expression, node.symbol? = some (.nonterminal kind)

theorem IsExpression.isNamed (isExpression : node.IsExpression) : node.isNamed = true := by
  rcases isExpression with ⟨kind, -, isSymbol⟩
  exact (symbol?_eq_nonterminal.mp isSymbol).1

/-- A row of nodes lists expressions with commas between them, and possibly one more comma behind
the last one. -/
inductive Lists : (row arguments : List Node) → (trailing : Bool) → Prop
  | last {argument : Node} (isExpression : argument.IsExpression) :
      Lists [argument] [argument] false
  | trailing {argument comma : Node} (isExpression : argument.IsExpression)
      (isComma : comma.symbol? = some (.terminal .comma)) :
      Lists [argument, comma] [argument] true
  | further {argument comma : Node} {row arguments : List Node} {trailing : Bool}
      (isExpression : argument.IsExpression) (isComma : comma.symbol? = some (.terminal .comma))
      (lists : Lists row arguments trailing) :
      Lists (argument :: comma :: row) (argument :: arguments) trailing

theorem exists_expression_of_row {symbols : List (Grammar.Symbol Terminal Kind)}
    (isRow : symbols ∈ Expansion.expression.matches')
    (spells : row.map symbol? = symbols.map some) :
    ∃ argument, row = [argument] ∧ argument.IsExpression := by
  rcases Expansion.exists_eq_singleton isRow rfl with ⟨symbol, isSymbol, rfl⟩
  rcases List.map_eq_singleton_iff.mp spells with ⟨argument, rfl, isSpelled⟩
  have isNonterminal : symbol ∈ (Expansion.kinds Expansion.expression).map .nonterminal := isSymbol
  rcases List.mem_map.mp isNonterminal with ⟨kind, isKind, rfl⟩
  exact ⟨argument, rfl, kind, isKind, isSpelled⟩

/-- The grammar repeats pieces of a comma and an expression each behind the first expression. -/
theorem IsExpression.exists_lists {argument : Node} (isExpression : argument.IsExpression)
    {pieces : List (List (Grammar.Symbol Terminal Kind))}
    (each : ∀ piece ∈ pieces, piece ∈ (Expansion.further Expansion.expression).matches')
    {last : List (Grammar.Symbol Terminal Kind)}
    (isLast : last ∈ (Expansion.maybe (Expansion.token .comma)).matches')
    (spells : row.map symbol? = (pieces.flatten ++ last).map some) :
    ∃ arguments trailing, Lists (argument :: row) arguments trailing := by
  induction pieces generalizing argument row with
  | nil =>
      rcases isLast with rfl | rfl
      · rcases List.map_eq_nil_iff.mp spells with rfl
        exact ⟨_, _, .last isExpression⟩
      · rcases List.map_eq_singleton_iff.mp spells with ⟨comma, rfl, isComma⟩
        exact ⟨_, _, .trailing isExpression isComma⟩
  | cons piece pieces induction =>
      rcases List.forall_mem_cons.mp each with ⟨isPiece, others⟩
      rcases Language.mem_mul.mp isPiece with ⟨_, rfl, next, isNext, rfl⟩
      rw [List.flatten_cons, List.append_assoc, List.append_assoc, List.singleton_append,
        List.map_cons] at spells
      rcases List.map_eq_cons_iff.mp spells with ⟨comma, rest, rfl, isComma, spells⟩
      rw [List.map_append] at spells
      rcases List.map_eq_append_iff.mp spells with ⟨front, back, rfl, isFront, isBack⟩
      rcases exists_expression_of_row isNext isFront with ⟨following, rfl, isFollowing⟩
      rcases induction isFollowing others isBack with ⟨arguments, trailing, lists⟩
      exact ⟨_, _, .further isExpression isComma lists⟩

/-- What the grammar has for a list is a list of expressions. -/
theorem exists_lists_of_row {symbols : List (Grammar.Symbol Terminal Kind)}
    (isRow : symbols ∈ (Expansion.listed Expansion.expression).matches')
    (spells : row.map symbol? = symbols.map some) :
    ∃ arguments trailing, Lists row arguments trailing := by
  rcases Language.mem_mul.mp isRow with ⟨_, isFront, last, isLast, rfl⟩
  rcases Language.mem_mul.mp isFront with ⟨first, isFirst, _, isMore, rfl⟩
  rcases Language.mem_kstar.mp isMore with ⟨pieces, rfl, each⟩
  rw [List.append_assoc, List.map_append] at spells
  rcases List.map_eq_append_iff.mp spells with ⟨front, back, rfl, isFront, isBack⟩
  rcases exists_expression_of_row isFirst isFront with ⟨argument, rfl, isExpression⟩
  exact isExpression.exists_lists each isLast isBack

/-- Only the expressions of a list are named. -/
theorem Lists.filter_isNamed (lists : Lists row arguments trailing) :
    row.filter isNamed = arguments := by
  induction lists with
  | last isExpression => simp [isExpression.isNamed]
  | trailing isExpression isComma => simp [isExpression.isNamed, isNamed_of_symbol? isComma]
  | further isExpression isComma lists induction =>
      simp [isExpression.isNamed, isNamed_of_symbol? isComma, induction]

theorem Lists.exists_cons (lists : Lists row arguments trailing) :
    ∃ argument others, arguments = argument :: others := by
  cases lists with
  | last => exact ⟨_, _, rfl⟩
  | trailing => exact ⟨_, _, rfl⟩
  | further => exact ⟨_, _, rfl⟩

theorem Lists.head?_eq (lists : Lists row arguments trailing) : row.head? = arguments.head? := by
  cases lists with
  | last => rfl
  | trailing => rfl
  | further => rfl

theorem Grammatical.text_comma (grammatical : node.Grammatical source)
    (isComma : node.symbol? = some (.terminal .comma)) : node.text source = "," := by
  rw [text, grammatical.chars_of_fixed isComma "," (by simp [fixedSpellings]), String.ofList_toList]

/-- The texts of arguments with commas between them, and one more comma if there is a trailing one.
-/
def joined (source : List Char) (arguments : List Node) (trailing : Bool) : String :=
  ",".intercalate (arguments.map (text source)) ++ if trailing then "," else ""

theorem joined_cons_cons (source : List Char) (first second : Node) (others : List Node)
    (trailing : Bool) : joined source (first :: second :: others) trailing =
      first.text source ++ ("," ++ joined source (second :: others) trailing) := by
  simp [joined, String.append_assoc]

theorem Lists.join (lists : Lists row arguments trailing)
    (grammatical : ∀ part ∈ row, part.Grammatical source) :
    String.join (row.map (text source)) = joined source arguments trailing := by
  induction lists with
  | last isExpression => simp [joined]
  | @trailing argument comma isExpression isComma =>
      have isText := (grammatical comma (by simp)).text_comma isComma
      simp [joined, isText]
  | @further argument comma row arguments trailing isExpression isComma lists induction =>
      have isText := (grammatical comma (by simp)).text_comma isComma
      have rest := induction fun part isPart => grammatical part (by simp [isPart])
      rcases lists.exists_cons with ⟨next, others, rfl⟩
      simp [joined_cons_cons, isText, rest]

/-- Only a single argument without a comma is all that is written. -/
theorem joined_eq_first_iff {argument : Node} {others : List Node} :
    joined source (argument :: others) trailing = argument.text source ↔
      others = [] ∧ trailing = false := by
  cases others with
  | nil => cases trailing <;> simp [joined, ← String.toList_inj]
  | cons next others => simp [joined_cons_cons, ← String.toList_inj]

/-! ## Attributes with arguments -/

/-- A node uses an attribute in one way. -/
theorem UsesAttribute.unique {other : Node} {others : List Node}
    (uses : node.UsesAttribute name inside) (otherUses : node.UsesAttribute other others) :
    name = other ∧ inside = others := by
  cases uses with
  | bare isSign isName children =>
      cases otherUses with
      | bare otherSign otherName otherChildren => simp_all
      | called otherSign otherName isOpening isClosing otherChildren => simp_all
  | called isSign isName isOpening isClosing children =>
      cases otherUses with
      | bare otherSign otherName otherChildren => simp_all
      | called otherSign otherName otherOpening otherClosing otherChildren =>
          rw [children] at otherChildren
          simp only [List.cons.injEq] at otherChildren
          rcases otherChildren with ⟨-, isSame, -, isSameRow⟩
          exact ⟨isSame, (List.append_inj' isSameRow rfl).1⟩

/-- An attribute with its name and its arguments, and whether a comma stands behind the last of
them. -/
inductive TakesArguments (node name : Node) : (arguments : List Node) → (trailing : Bool) → Prop
  | empty (uses : node.UsesAttribute name []) : TakesArguments node name [] false
  | listed {inside arguments : List Node} {trailing : Bool} (uses : node.UsesAttribute name inside)
      (lists : Lists inside arguments trailing) : TakesArguments node name arguments trailing

theorem OfKind.exists_takesArguments (ofKind : node.OfKind source .attributeUse) :
    ∃ name arguments trailing, node.TakesArguments name arguments trailing := by
  rcases ofKind.exists_arguments with ⟨name, inside, uses, row, rfl | isListed, spells⟩
  · rcases List.map_eq_nil_iff.mp spells with rfl
    exact ⟨name, [], false, .empty uses⟩
  · rcases exists_lists_of_row isListed spells with ⟨arguments, trailing, lists⟩
    exact ⟨name, arguments, trailing, .listed uses lists⟩

end ShaderReflection.Tree.Node

namespace ShaderReflection.Reflection

open ShaderReflection.Tree ShaderReflection.Attempt

variable {source : List Char} {node name : Node} {arguments : List Node} {trailing : Bool}

/-- What the two readings give for an attribute with a name and arguments. -/
structure ReadsArguments (source : List Char) (node name : Node) (arguments : List Node)
    (trailing : Bool) : Prop where
  /-- Each argument is one named child, whatever it is made of. -/
  namedChildren : node.namedChildren = name :: arguments
  whole : readAttributeText source node =
    .ok ⟨name.text source, Node.joined source arguments trailing⟩
  first : readAttribute source node =
    .ok ⟨name.text source, (arguments.head?.map (Node.text source)).getD ""⟩
  agree : readAttributeText source node = readAttribute source node ↔
    arguments.length ≤ 1 ∧ trailing = false

theorem readAttributeText_of_usesAttribute {inside : List Node}
    (ofKind : node.OfKind source .attributeUse) (plain : node.Plain source)
    (uses : node.UsesAttribute name inside) :
    readAttributeText source node =
      .ok ⟨name.text source, String.join (inside.map (Node.text source))⟩ := by
  rcases (readAttributeText_describes ofKind).exists_ok with ⟨found, reads, describes⟩
  rcases describes plain with ⟨other, others, otherUses, rfl⟩
  rcases uses.unique otherUses with ⟨rfl, rfl⟩
  exact reads

theorem readAttribute_of_usesAttribute {inside : List Node}
    (ofKind : node.OfKind source .attributeUse) (uses : node.UsesAttribute name inside) :
    readAttribute source node =
      .ok ⟨name.text source, (inside.head?.map (Node.text source)).getD ""⟩ := by
  rcases (readAttribute_describes ofKind).exists_ok with
    ⟨found, reads, other, others, otherUses, rfl⟩
  rcases uses.unique otherUses with ⟨rfl, rfl⟩
  exact reads

theorem ReadsArguments.of_takesArguments (ofKind : node.OfKind source .attributeUse)
    (plain : node.Plain source) (takes : node.TakesArguments name arguments trailing) :
    ReadsArguments source node name arguments trailing := by
  cases takes with
  | empty uses =>
      have whole := readAttributeText_of_usesAttribute ofKind plain uses
      have first := readAttribute_of_usesAttribute ofKind uses
      refine ⟨uses.namedChildren, whole, first, ?_⟩
      rw [whole, first]
      simp
  | listed uses lists =>
      have whole := readAttributeText_of_usesAttribute ofKind plain uses
      have first := readAttribute_of_usesAttribute ofKind uses
      rw [lists.join fun part isPart => ofKind.child (uses.mem_children isPart)] at whole
      rw [lists.head?_eq] at first
      refine ⟨?_, whole, first, ?_⟩
      · rw [uses.namedChildren, lists.filter_isNamed]
      · rcases lists.exists_cons with ⟨argument, others, rfl⟩
        rw [whole, first]
        simp [Node.joined_eq_first_iff]

/-- Every attribute of a parsed source takes arguments, and is read with all of them or with the
first one. -/
theorem attributes_of_parse {text : String} {tree : SyntaxTree} (accepted : parse text = .ok tree)
    (isAttribute : node ∈ nodesOfKind tree .attributeUse) :
    ∃ name arguments trailing, node.TakesArguments name arguments trailing ∧
      ReadsArguments tree.source node name arguments trailing := by
  rcases grammatical_of_parse_eq accepted with ⟨grammatical, -⟩
  have ofKind := ofKind_of_mem_nodesOfKind grammatical isAttribute
  have plain :=
    (plain_of_parse_eq accepted).of_mem_walk grammatical (List.mem_filter.mp isAttribute).1
  rcases ofKind.exists_takesArguments with ⟨name, arguments, trailing, takes⟩
  exact ⟨name, arguments, trailing, takes, .of_takesArguments ofKind plain takes⟩

/-- An attribute with parentheses and commas in its arguments, and with a comma at the end. -/
def listedSource : String := "@a((1), f(2, (3)),) fn g() \x7b\x7d"

theorem exists_parse_listedSource : ∃ tree node, parse listedSource = .ok tree ∧
    node ∈ nodesOfKind tree .attributeUse ∧
    node.namedChildren.map (Node.text tree.source) = ["a", "(1)", "f(2, (3))"] ∧
    readAttributeText tree.source node = .ok ⟨"a", "(1),f(2, (3)),"⟩ := by
  have checked : ((parse listedSource).toOption.any fun tree =>
      (nodesOfKind tree .attributeUse).any fun node =>
        node.namedChildren.map (Node.text tree.source) == ["a", "(1)", "f(2, (3))"] &&
          (readAttributeText tree.source node).toOption.any
            (· == ⟨"a", "(1),f(2, (3)),"⟩)) = true := by
    decide +kernel
  rcases exists_ok_of_any checked with ⟨tree, accepted, isAny⟩
  rcases List.any_eq_true.mp isAny with ⟨node, isNode, reads⟩
  rcases Bool.and_eq_true_iff.mp reads with ⟨texts, whole⟩
  rcases exists_ok_of_any whole with ⟨found, isFound, same⟩
  refine ⟨tree, node, accepted, isNode, beq_iff_eq.mp texts, ?_⟩
  rw [isFound, beq_iff_eq.mp same]

theorem attributes_of_parse_listedSource : ∃ tree node name arguments,
    parse listedSource = .ok tree ∧ node ∈ nodesOfKind tree .attributeUse ∧
      node.TakesArguments name arguments true ∧
      arguments.map (Node.text tree.source) = ["(1)", "f(2, (3))"] ∧
      readAttributeText tree.source node = .ok ⟨"a", "(1),f(2, (3)),"⟩ ∧
      readAttribute tree.source node = .ok ⟨"a", "(1)"⟩ := by
  rcases exists_parse_listedSource with ⟨tree, node, accepted, isNode, texts, whole⟩
  rcases attributes_of_parse accepted isNode with ⟨name, arguments, trailing, takes, reads⟩
  rw [reads.namedChildren, List.map_cons, List.cons.injEq] at texts
  rcases texts with ⟨isName, areTexts⟩
  have isTrailing : trailing = true := by
    have isWhole := reads.whole
    rw [whole, Node.joined, areTexts] at isWhole
    cases trailing with
    | true => rfl
    | false => simp [isName] at isWhole
  have first := reads.first
  rw [← List.head?_map, areTexts, isName] at first
  exact ⟨tree, node, name, arguments, accepted, isNode, isTrailing ▸ takes, areTexts, whole, first⟩

end ShaderReflection.Reflection

import ShaderReflection.Proofs.Reflection.Numbers
import ShaderReflection.Proofs.Tree.RoundTrip

/-!
# A number that is too long

A variable that says all that a binding has to say, and more: the first of its two groups is a
decimal literal beyond the limit. As only the last group counts, the variable would be bound to
group zero; but reading its attributes ends at the first one (`readBinding_handleVariable`).

The literal is so long that the source is not run through the parser here. The tree of the source is
known because it is printed from that tree, and the literal stays a variable for as long as
possible.
-/

namespace ShaderReflection.Reflection

open ShaderReflection.Grammar ShaderReflection.Tree ShaderReflection.Text ShaderReflection.Wgsl

/-! ## A variable with two groups -/

section Phrases

variable {κ : Type}

def markPhrase (token : Nat → κ) : Phrase κ :=
  .node .attributeUse [.leaf .atSign (token 0), .node .identifier [.leaf .identifier (token 1)],
    .leaf .leftParen (token 2), .node .intLiteral [.leaf .intLiteral (token 3)],
    .leaf .rightParen (token 4)]

def handlePhrase (token : Nat → κ) : Phrase κ :=
  .node .globalVariableDeclaration [markPhrase token, markPhrase fun index => token (index + 5),
    markPhrase fun index => token (index + 10),
    .node .variableDeclaration [.leaf .varWord (token 15),
      .node .variableIdentifierDeclaration [.node .identifier [.leaf .identifier (token 16)],
        .leaf .colon (token 17), .node .typeDeclaration [.leaf .typeName (token 18)]]],
    .leaf .semicolon (token 19)]

def handleModule (token : Nat → κ) : Phrase κ := .node .translationUnit [handlePhrase token]

/-- Whether it derives does not depend on the tokens. -/
theorem isModule_handleModule (token : Nat → κ) : (handleModule token).IsModule := by
  have isModule : (handleModule fun _ => ()).IsModule := ⟨by decide +kernel, rfl⟩
  exact Phrase.IsModule.of_map (show ((handleModule token).map fun _ => ()).IsModule from isModule)

end Phrases

/-- The texts in front of the first group, and those behind it. -/
def handleFront : List (Terminal × List Char) :=
  [(.atSign, ['@']), (.identifier, "group".toList), (.leftParen, ['('])]

def handleBack : List (Terminal × List Char) :=
  [(.rightParen, [')']),
    (.atSign, ['@']), (.identifier, "group".toList), (.leftParen, ['(']), (.intLiteral, ['0']),
    (.rightParen, [')']),
    (.atSign, ['@']), (.identifier, "binding".toList), (.leftParen, ['(']), (.intLiteral, ['0']),
    (.rightParen, [')']),
    (.varWord, "var".toList), (.identifier, ['t']), (.colon, [':']),
    (.typeName, "sampler".toList), (.semicolon, [';'])]

def handleLeaves (literal : List Char) : List (Terminal × List Char) :=
  handleFront ++ (.intLiteral, literal) :: handleBack

/-- The source `@ group ( literal ) @ group ( 0 ) @ binding ( 0 ) var t : sampler ;`. -/
def handleSource (literal : List Char) : List Char := render (handleLeaves literal)

variable {literal : List Char}

/-- All leaves but the literal do not depend on it, so they are tested. -/
theorem forall_mem_handleLeaves {property : Terminal × List Char → Prop}
    (ofLiteral : property (.intLiteral, literal))
    (others : ∀ leaf ∈ handleFront ++ handleBack, property leaf) :
    ∀ leaf ∈ handleLeaves literal, property leaf := by
  rw [List.forall_mem_append] at others
  rw [handleLeaves, List.forall_mem_append, List.forall_mem_cons]
  exact ⟨others.1, ofLiteral, others.2⟩

theorem written_handleLeaves (isText : literal ∈ Terminal.texts .intLiteral) :
    ∀ leaf ∈ handleLeaves literal, leaf.2 ∈ leaf.1.texts := by
  have reads : ∀ leaf ∈ handleFront ++ handleBack,
      (Lexeme.lexicon.restrict (· == leaf.1)).read leaf.2 = some ⟨some leaf.1, leaf.2⟩ := by
    decide +kernel
  exact forall_mem_handleLeaves isText fun leaf isLeaf =>
    Lexeme.mem_texts_of_read (reads leaf isLeaf)

/-- The tokens of the source. -/
def handleToken (literal : List Char) (index : Nat) : Token :=
  ((place Position.start (handleLeaves literal))[index]?.map Prod.snd).getD ⟨Position.start, []⟩

theorem leaves_handleModule (literal : List Char) :
    (handleModule (handleToken literal)).leaves = place Position.start (handleLeaves literal) :=
  rfl

def handleTree (literal : List Char) : SyntaxTree :=
  ⟨handleSource literal, (handleModule (handleToken literal)).toNode⟩

/-- The only variable of the source. -/
def handleVariable (literal : List Char) : Node := (handlePhrase (handleToken literal)).toNode

theorem parse_handleSource (isText : literal ∈ Terminal.texts .intLiteral) :
    SyntaxTree.parse (handleSource literal) = .ok (handleTree literal) ∧
      ∀ index leaf, (handleLeaves literal)[index]? = some leaf →
        (handleToken literal index).span.slice (handleSource literal) = leaf.2 := by
  have unreserved : ∀ leaf ∈ handleLeaves literal, leaf.1 = .identifier →
      ∀ spelling ∈ spellings, spelling.text ≠ leaf.2 :=
    forall_mem_handleLeaves (fun isIdentifier => by cases isIdentifier) (by decide +kernel)
  have noBody : ∀ leaf ∈ handleLeaves literal, leaf.1 ≠ .bodyText :=
    forall_mem_handleLeaves (by simp) (by decide +kernel)
  have noOperator : ∀ leaf ∈ handleLeaves literal, leaf ≠ (.binaryOperator, ['>']) :=
    forall_mem_handleLeaves (by simp) (by decide +kernel)
  have chain {relation : Terminal × List Char → Terminal × List Char → Prop}
      (each : ∀ left, ∀ right ∈ handleLeaves literal, relation left right) :
      (handleLeaves literal).IsChain relation :=
    (List.pairwise_of_forall_mem_list fun left _ right => each left right).isChain
  rcases parse_of_placed (isModule_handleModule _) (leaves_handleModule literal)
    (written_handleLeaves isText) unreserved
    (chain fun _ right isRight both => noBody right isRight both.2)
    (chain fun _ right isRight clash => noOperator right isRight clash.2) with ⟨accepted, scan⟩
  refine ⟨accepted, ?_⟩
  intro index leaf isLeaf
  rw [← map_text_place Position.start (handleLeaves literal), List.getElem?_map,
    Option.map_eq_some_iff] at isLeaf
  rcases isLeaf with ⟨placed, isPlaced, rfl⟩
  have isToken : handleToken literal index = placed.2 := by rw [handleToken, isPlaced]; rfl
  rw [isToken]
  exact scan.slice_eq_text Lexeme.lexicon_honest rfl placed (List.mem_of_getElem? isPlaced)

/-! ## What the variable says -/

theorem nodesOfKind_handleTree (isText : literal ∈ Terminal.texts .intLiteral) :
    nodesOfKind (handleTree literal) .globalVariableDeclaration = [handleVariable literal] := by
  rcases Tree.grammatical_of_parse (parse_handleSource isText).1 with ⟨-, grammatical, isModule⟩
  have ofKind : (handleTree literal).root.OfKind (handleTree literal).source .translationUnit :=
    ⟨grammatical, rfl, isModule⟩
  rw [nodesOfKind_eq_parts ofKind (by decide)]
  rfl

section Reading

variable {source : List Char} {node child mark : Node} {others : List Node} {fault : Fault}

theorem readBindingChild_group (isKind : child.kind = .ok .attributeUse)
    (isFull : child.namedChildren = mark :: others) (isName : mark.text source = "group")
    (draft : BindingDraft) : readBindingChild source draft child = do
      return { draft with group := some (← readIntegerAttribute source child "group") } := by
  simp only [readBindingChild, isKind, isFull, isName, bind, Except.bind]

/-- Reading ends at the first child that cannot be read. -/
theorem readBinding_eq_error (isKind : node.kind = .ok .globalVariableDeclaration)
    (isFull : node.namedChildren = child :: others)
    (fails : readBindingChild source .empty child = .error fault) :
    readBinding source node = .error fault := by
  simp only [readBinding, isKind, isFull, List.foldlM_cons, fails, bind, Except.bind, if_true]


theorem readBinding_handlePhrase {token : Nat → Token} {count : Nat}
    (isGroup : (token 1).span.slice source = "group".toList)
    (exceeds : Exceeds ((token 3).span.slice source) count) :
    readBinding source (handlePhrase token).toNode = .error (.unreadableInteger count) := by
  have isName : ((Phrase.node .identifier [.leaf .identifier (token 1)]).toNode).text source =
      "group" := congrArg String.ofList isGroup
  have isLong : HasLongNumber source (markPhrase token).toNode count := ⟨_, rfl, rfl, exceeds⟩
  have fails : readBindingChild source .empty (markPhrase token).toNode =
      .error (.unreadableInteger count) := by
    rw [readBindingChild_group rfl rfl isName, isLong.readIntegerAttribute_eq]
    rfl
  exact readBinding_eq_error rfl rfl fails

end Reading

theorem readBinding_handleVariable {count : Nat} (isText : literal ∈ Terminal.texts .intLiteral)
    (exceeds : Exceeds literal count) :
    readBinding (handleSource literal) (handleVariable literal) =
      .error (.unreadableInteger count) := by
  have shows := (parse_handleSource isText).2
  apply readBinding_handlePhrase
  · exact shows 1 _ rfl
  · rw [shows 3 _ rfl]
    exact exceeds

/-- The source whose first group has one digit more than are read. -/
def longSource : String := String.ofList (handleSource longLiteral)

theorem parse_longSource : parse longSource = .ok (handleTree longLiteral) := by
  rw [parse, longSource, String.toList_ofList, (parse_handleSource longLiteral_mem_texts).1]
  rfl

theorem readBinding_longSource :
    readBinding (handleTree longLiteral).source (handleVariable longLiteral) =
      .error (.unreadableInteger longLiteral.length) :=
  readBinding_handleVariable longLiteral_mem_texts exceeds_longLiteral

end ShaderReflection.Reflection

import ShaderReflection.Proofs.Tree.Neighbours
import ShaderReflection.Proofs.Tree.Respacing
import ShaderReflection.Proofs.Wgsl.Closing

/-!
# Nested lists of template arguments

Two lists of template arguments can end side by side. Whether the two `>` may touch each other
depends on the token in front of the first: behind a name or an integer they are read as one
operator, and behind anything else the gap between them can be removed (`closers_touch_iff`).
-/

namespace ShaderReflection.Tree

open ShaderReflection.Grammar ShaderReflection.Wgsl ShaderReflection.Text

variable {source : List Char} {tree : SyntaxTree} {before after : List Node} {left right : Node}

/-- Without a gap the source is accepted, and its tree shows the same kinds, terminals and texts. -/
def SyntaxTree.SameWithout (tree : SyntaxTree) (gap : Span) : Prop :=
  ∃ closed phrase,
    SyntaxTree.parse (tree.source.take gap.start ++ tree.source.drop gap.stop) = .ok closed ∧
      tree.root.phrase? tree.source = some phrase ∧
      closed.root.phrase? closed.source = some phrase

/-- A token that ends a list; an operator that is written alike is another terminal. -/
def Node.IsCloser (source : List Char) (leaf : Node) : Prop :=
  leaf.lexeme? source = some (.greater, ['>'])

/-- The ends of nested lists can touch each other. -/
def SyntaxTree.ClosersTouch (tree : SyntaxTree) : Prop :=
  ∀ before left right after, tree.root.leaves = before ++ left :: right :: after →
    left.IsCloser tree.source → right.IsCloser tree.source →
      tree.SameWithout ⟨(left.span tree.source).stop, (right.span tree.source).start⟩

/-- Where no list may end with the token in front, no operator may come next. -/
theorem noBinary_of_last {token : Terminal × Token} {earlier others : List (Terminal × Token)}
    {stack later : Stack Terminal Nonterminal Token}
    (turn : Turn source earlier token others stack later) (isCloser : token.1 = .greater)
    (noOperand : ∀ last ∈ earlier.getLast?, last.1 ∉ [Terminal.identifier, .intLiteral]) :
    parser.accepts (Stack.state stack) .binaryOperator = false := by
  apply Bool.eq_false_iff.mpr
  intro isBinary
  have isGreater := isCloser ▸ turn.accepts
  have isLast := (accepts_greater turn.behind isBinary).mp isGreater
  cases last : earlier.getLast? with
  | none =>
      rw [last] at isLast
      rcases isLast with isLast | isLast <;> cases isLast
  | some leaf =>
      rw [last, Option.map_some, Option.some.injEq, Option.some.injEq] at isLast
      exact noOperand leaf last (by simpa using isLast)

/-- A phrase that shows the same as another one is read in the same states. -/
theorem Phrase.StandsAt.sameStates {position : Position} {text : List Char}
    {found phrase : Phrase Token} (stands : found.StandsAt position text)
    (foundIsModule : found.IsModule) (isModule : phrase.IsModule)
    (same : found.map Token.text = phrase.map Token.text) :
    Covers (0 :: parser.trace [] phrase.leaves) position text found.leaves ∧
      found.leaves.map (Prod.map id Token.text) = phrase.leaves.map (Prod.map id Token.text) := by
  have sameTexts := congrArg Phrase.leaves same
  rw [Phrase.leaves_map, Phrase.leaves_map] at sameTexts
  have sameLetters := congrArg (List.map Prod.fst) sameTexts
  rw [List.map_map, List.map_map] at sameLetters
  refine ⟨?_, sameTexts⟩
  rw [← trace_eq_of_isModule foundIsModule isModule sameLetters]
  exact stands

/-- The gap between the ends of two lists can be removed just if the first list does not end with a
name or an integer. -/
theorem closers_touch_iff (accepted : SyntaxTree.parse source = .ok tree)
    (isSplit : tree.root.leaves = before ++ left :: right :: after)
    (isLeft : left.IsCloser source) (isRight : right.IsCloser source) :
    tree.SameWithout ⟨(left.span source).stop, (right.span source).start⟩ ↔
      ∀ last ∈ before.getLast?,
        (last.lexeme? source).map Prod.fst ∉ [some .identifier, some .intLiteral] := by
  rcases parse_eq_ok_iff.mp accepted with ⟨phrase, isModule, rfl, stands⟩
  rw [Phrase.leaves_toNode] at isSplit
  rcases List.map_eq_append_iff.mp isSplit with ⟨earlier, rest, areLeaves, rfl, isRest⟩
  rcases List.map_eq_cons_iff.mp isRest with ⟨first, others, rfl, rfl, areOthers⟩
  rcases List.map_eq_cons_iff.mp areOthers with ⟨second, more, rfl, rfl, rfl⟩
  rcases stands.exists_turn isModule areLeaves with ⟨stack, later, turn⟩
  have covers := stands
  rw [Phrase.StandsAt, areLeaves] at covers
  rcases turn.next with ⟨_, nextTurn⟩
  rw [Node.IsCloser, lexeme?_of_turn turn, Option.some.injEq, Prod.mk.injEq] at isLeft
  rw [Node.IsCloser, lexeme?_of_turn nextTurn, Option.some.injEq, Prod.mk.injEq] at isRight
  have shows := phrase?_of_scan (stands.scan isModule)
  constructor
  · rintro ⟨closed, shown, closedAccepted, isShown, closedShown⟩ last isLast isOperand
    rcases parse_eq_ok_iff.mp closedAccepted with ⟨other, otherIsModule, rfl, otherStands⟩
    cases shows.symm.trans isShown
    have sameTexts := Option.some.inj
      ((phrase?_of_scan (otherStands.scan otherIsModule)).symm.trans closedShown)
    rcases otherStands.sameStates otherIsModule isModule sameTexts with ⟨shorter, same⟩
    rw [areLeaves] at shorter same
    have noBinary := turn.noBinary_of_shorter covers isLeft.2 isRight.2 shorter same
    rw [List.getLast?_map] at isLast
    rcases Option.map_eq_some_iff.mp isLast with ⟨leaf, isLeaf, rfl⟩
    have isOpen : leaf.1 ∈ [Terminal.identifier, .intLiteral] := by
      simpa [Node.ofLeaf, Node.lexeme?] using isOperand
    rw [turn.accepts_binary isLeft.1 isRight.1 isLeaf isOpen] at noBinary
    cases noBinary
  · intro noOperand
    have noBinary := noBinary_of_last turn isLeft.1 (by
      intro last isLast isOperand
      apply noOperand (Node.ofLeaf last)
      · rw [List.getLast?_map, Option.mem_def.mp isLast]
        rfl
      · simpa [Node.ofLeaf, Node.lexeme?] using isOperand)
    rcases turn.covers_shorter covers isLeft.1 isLeft.2 noBinary with ⟨found, shorter, same⟩
    rw [← areLeaves] at shorter same
    rcases isModule.exists_standsAt same shorter with ⟨other, otherIsModule, sameTexts, stands⟩
    refine ⟨_, _, parse_eq_ok_iff.mpr ⟨other, otherIsModule, rfl, stands⟩, shows, ?_⟩
    rw [← sameTexts]
    exact phrase?_of_scan (stands.scan otherIsModule)

/-- Nested lists around a type that has no list of its own. -/
def nestedSource : List Char := "alias A = array<array<f32> >;".toList

/-- Nested lists around a name. -/
def namedSource : List Char := "alias A = array<array<Foo> >;".toList

/-- The gap between the ends of the nested lists. -/
def closersGap : Span := ⟨26, 27⟩

/-- From the eighth leaf on there are a token and the ends of two lists around a gap. -/
def closesAround (source : List Char) (gap : Span) (terminal : Terminal) (tree : SyntaxTree) :
    Bool :=
  match tree.root.leaves.drop 7 with
  | last :: left :: right :: _ =>
      (last.lexeme? source).map Prod.fst == some terminal &&
        (left.lexeme? source == some (.greater, ['>']) &&
          (left.span source).stop == gap.start) &&
        (right.lexeme? source == some (.greater, ['>']) &&
          (right.span source).start == gap.stop)
  | _ => false

-- Both sources in one evaluation, because building the automaton takes most of the time.
theorem closers_tested :
    (SyntaxTree.parse nestedSource).toOption.any
        (closesAround nestedSource closersGap .typeName) = true ∧
      (SyntaxTree.parse namedSource).toOption.any
        (closesAround namedSource closersGap .identifier) = true ∧
      (SyntaxTree.parse (namedSource.take closersGap.start ++
        namedSource.drop closersGap.stop)).toOption.isNone = true := by
  decide +kernel

theorem exists_closers {terminal : Terminal} {gap : Span}
    (checked : (SyntaxTree.parse source).toOption.any (closesAround source gap terminal) = true) :
    ∃ tree before last left right after, SyntaxTree.parse source = .ok tree ∧
      tree.root.leaves = (before ++ [last]) ++ left :: right :: after ∧
      (last.lexeme? source).map Prod.fst = some terminal ∧
      left.IsCloser source ∧ right.IsCloser source ∧
      gap = ⟨(left.span source).stop, (right.span source).start⟩ := by
  rcases exists_ok_of_any checked with ⟨tree, accepted, closes⟩
  rw [closesAround] at closes
  split at closes
  · rename_i last left right after areLast
    simp only [Bool.and_eq_true, beq_iff_eq] at closes
    rcases closes with ⟨⟨isLast, isLeft, starts⟩, isRight, stops⟩
    refine ⟨tree, tree.root.leaves.take 7, last, left, right, after, accepted, ?_, isLast, isLeft,
      isRight, ?_⟩
    · rw [List.append_assoc, List.singleton_append, ← areLast, List.take_append_drop]
    · rw [starts, stops]
  · cases closes

theorem closers_touch_nestedSource :
    ∃ tree before left right after, SyntaxTree.parse nestedSource = .ok tree ∧
      tree.root.leaves = before ++ left :: right :: after ∧
      left.IsCloser nestedSource ∧ right.IsCloser nestedSource ∧ tree.SameWithout closersGap := by
  rcases exists_closers closers_tested.1 with
    ⟨tree, before, last, left, right, after, accepted, isSplit, isLast, isLeft, isRight, isGap⟩
  refine ⟨tree, _, left, right, after, accepted, isSplit, isLeft, isRight, ?_⟩
  rw [isGap]
  apply (closers_touch_iff accepted isSplit isLeft isRight).mpr
  intro found isFound
  rw [List.getLast?_concat, Option.mem_some] at isFound
  rw [← isFound, isLast]
  decide

/-- The ends of lists around a name are read as one operator when they touch each other. -/
theorem closers_not_touch :
    ¬ ∀ source tree, SyntaxTree.parse source = .ok tree → tree.ClosersTouch := by
  intro always
  rcases exists_closers closers_tested.2.1 with
    ⟨tree, before, last, left, right, after, accepted, isSplit, -, isLeft, isRight, isGap⟩
  have isSource := (grammatical_of_parse accepted).1
  have touch := always namedSource tree accepted _ left right after isSplit
  rw [isSource, ← isGap] at touch
  rcases touch isLeft isRight with ⟨closed, -, closedAccepted, -⟩
  have rejected := closers_tested.2.2
  rw [isSource] at closedAccepted
  rw [closedAccepted] at rejected
  cases rejected

end ShaderReflection.Tree

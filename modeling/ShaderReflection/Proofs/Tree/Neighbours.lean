import ShaderReflection.Proofs.Tree.Covering
import ShaderReflection.Proofs.Tree.Lexemes
import ShaderReflection.Proofs.Wgsl.Boundaries

/-!
# Leaves that touch each other

Two leaves without trivia between them are told apart by what is read at the first of them. A leaf
stands where a comment seems to begin only if it is a slash and an asterisk follows that is an
operator as well (`leaf_at_mark_iff`), and a word runs into the next one only if it is the first
word of a declaration or directive (`words_touch`).
-/

namespace ShaderReflection.Tree

open ShaderReflection.Grammar ShaderReflection.Wgsl ShaderReflection.Text

variable {source : List Char} {tree : SyntaxTree} {before after : List Node} {leaf : Node}

/-! ## Leaves at their turns -/

theorem Phrase.StandsAt.exists_turn {phrase : Phrase Token}
    (stands : phrase.StandsAt Position.start source) (isModule : phrase.IsModule)
    {earlier others : List (Terminal × Token)} {token : Terminal × Token}
    (isSplit : phrase.leaves = earlier ++ token :: others) :
    ∃ stack later, Turn source earlier token others stack later := by
  rcases run_leaves_of_isModule isModule with ⟨derivation, built, -⟩
  rw [StandsAt, isSplit] at stands
  rw [isSplit] at built
  exact Wgsl.exists_turn built stands

/-- Every leaf of an accepted source is a token that has its turn. -/
theorem exists_turn_of_parse (accepted : SyntaxTree.parse source = .ok tree)
    (isSplit : tree.root.leaves = before ++ leaf :: after) :
    ∃ earlier token others stack later, before = earlier.map Node.ofLeaf ∧
      leaf = Node.ofLeaf token ∧ after = others.map Node.ofLeaf ∧
      Turn source earlier token others stack later := by
  rcases parse_eq_ok_iff.mp accepted with ⟨phrase, isModule, rfl, stands⟩
  rw [Phrase.leaves_toNode] at isSplit
  rcases List.map_eq_append_iff.mp isSplit with ⟨earlier, rest, areLeaves, rfl, isRest⟩
  rcases List.map_eq_cons_iff.mp isRest with ⟨token, others, rfl, rfl, rfl⟩
  rcases stands.exists_turn isModule areLeaves with ⟨stack, later, turn⟩
  exact ⟨earlier, token, others, stack, later, rfl, rfl, rfl, turn⟩

section Turn

variable {token : Terminal × Token} {earlier others : List (Terminal × Token)}
  {stack later : Stack Terminal Nonterminal Token}

theorem lexeme?_of_turn (turn : Turn source earlier token others stack later) :
    (Node.ofLeaf token).lexeme? source = some (token.1, token.2.text) := by
  rw [Node.ofLeaf, Node.lexeme?, turn.slice_eq]

theorem chars_of_turn (turn : Turn source earlier token others stack later) :
    (Node.ofLeaf token).chars source = token.2.text :=
  turn.slice_eq

theorem span_ofLeaf : (Node.ofLeaf token).span source = token.2.span := rfl

end Turn

/-! ## Two sources -/

/-- A slash in front of an asterisk. -/
def slashSource : List Char := "const x = 1 /* 2;".toList

/-- A word that runs into the next one. -/
def gluedSource : List Char := "structA \x7b x: f32 \x7d".toList

/-- A leaf starts at an offset. -/
def startsAt (source : List Char) (offset : Nat) (tree : SyntaxTree) : Bool :=
  tree.root.leaves.any fun leaf => (leaf.span source).start == offset

/-- What the first two leaves span. -/
def beginsWith (source : List Char) (first second : Span) (tree : SyntaxTree) : Bool :=
  match tree.root.leaves with
  | left :: right :: _ => left.span source == first && right.span source == second
  | _ => false

-- Both sources in one evaluation, because building the automaton takes most of the time.
theorem sources_tested :
    (SyntaxTree.parse slashSource).toOption.any (startsAt slashSource 12) = true ∧
      (SyntaxTree.parse gluedSource).toOption.any (beginsWith gluedSource ⟨0, 6⟩ ⟨6, 7⟩) =
        true := by
  decide +kernel

/-! ## Marks of comments -/

/-- A leaf stands where a comment seems to begin just if it is the operator `/` and the operator `*`
touches it; then the comment is not closed anywhere. -/
theorem leaf_at_mark_iff (accepted : SyntaxTree.parse source = .ok tree)
    (isSplit : tree.root.leaves = before ++ leaf :: after) :
    ['/', '*'] <+: source.drop (leaf.span source).start ↔
      leaf.lexeme? source = some (.binaryOperator, ['/']) ∧
        (∃ next ∈ after.head?, next.lexeme? source = some (.unaryOperator, ['*']) ∧
          (next.span source).start = (leaf.span source).stop) ∧
        ¬ ['*', '/'] <:+: source.drop ((leaf.span source).start + 2) := by
  rcases exists_turn_of_parse accepted isSplit with
    ⟨earlier, token, others, stack, later, rfl, rfl, rfl, turn⟩
  rw [lexeme?_of_turn turn, span_ofLeaf]
  constructor
  · rintro ⟨rest, isMark⟩
    rcases turn.at_mark isMark.symm with
      ⟨isBinary, isSlash, noEnd, second, more, last, rfl, isUnary, isStar, touches, nextTurn⟩
    refine ⟨by rw [isBinary, isSlash], ⟨_, rfl, ?_, touches⟩, ?_⟩
    · rw [lexeme?_of_turn nextTurn, isUnary, isStar]
    · have isRest : source.drop (token.2.span.start + 2) = rest := by
        rw [← List.drop_drop, ← isMark]
        rfl
      rw [isRest]
      exact noEnd
  · rintro ⟨isSlash, ⟨next, isNext, isStar, touches⟩, -⟩
    cases others with
    | nil => cases isNext
    | cons second more =>
        cases isNext
        rcases turn.next with ⟨last, nextTurn⟩
        rw [lexeme?_of_turn nextTurn] at isStar
        have slash : token.2.text = ['/'] := congrArg Prod.snd (Option.some.inj isSlash)
        have star : second.2.text = ['*'] := congrArg Prod.snd (Option.some.inj isStar)
        have starts : second.2.start.offset = token.2.span.stop := touches
        rw [Token.span, turn.drop_start, ← starts, nextTurn.drop_start, slash, star]
        exact List.prefix_append ['/', '*'] _

theorem exists_slash : ∃ tree leaf, SyntaxTree.parse slashSource = .ok tree ∧
    leaf ∈ tree.root.leaves ∧ ['/', '*'] <+: slashSource.drop (leaf.span slashSource).start := by
  rcases exists_ok_of_any sources_tested.1 with ⟨tree, accepted, hasSlash⟩
  rcases List.any_eq_true.mp hasSlash with ⟨leaf, isLeaf, isStart⟩
  refine ⟨tree, leaf, accepted, isLeaf, ?_⟩
  rw [beq_iff_eq.mp isStart]
  decide

theorem leaf_at_mark_slashSource :
    ∃ tree before leaf after, SyntaxTree.parse slashSource = .ok tree ∧
      tree.root.leaves = before ++ leaf :: after ∧
      leaf.lexeme? slashSource = some (.binaryOperator, ['/']) ∧
      ∃ next ∈ after.head?, next.lexeme? slashSource = some (.unaryOperator, ['*']) := by
  rcases exists_slash with ⟨tree, leaf, accepted, isLeaf, isMark⟩
  rcases List.append_of_mem isLeaf with ⟨before, after, isSplit⟩
  rcases (leaf_at_mark_iff accepted isSplit).mp isMark with ⟨isSlash, ⟨next, isNext, isStar, -⟩, -⟩
  exact ⟨tree, before, leaf, after, accepted, isSplit, isSlash, next, isNext, isStar⟩

/-- A comment that is not closed can be read as two operators. -/
theorem leaf_at_open_comment :
    ¬ ∀ source tree, SyntaxTree.parse source = .ok tree → tree.NoLeafAtMark := by
  intro never
  rcases exists_slash with ⟨tree, leaf, accepted, isLeaf, isMark⟩
  have noMark := never slashSource tree accepted leaf isLeaf
  rw [(grammatical_of_parse accepted).1] at noMark
  exact noMark isMark

/-! ## Words -/

/-- Two words of a tree do not touch each other: characters of words at the end of one leaf and at
the beginning of the next one have trivia between them. -/
def SyntaxTree.WordsApart (tree : SyntaxTree) : Prop :=
  ∀ before left right after, tree.root.leaves = before ++ left :: right :: after →
    (∃ char ∈ (left.chars tree.source).getLast?, Lexeme.isWordPart char = true) →
    (∃ char ∈ (right.chars tree.source).head?, Lexeme.isWordPart char = true) →
    (left.span tree.source).stop < (right.span tree.source).start

/-- A word runs into the next leaf only if a declaration or a directive begins with it and has no
attributes: it is the first leaf of all or stands behind a semicolon or a brace. -/
theorem words_touch {left right : Node} (accepted : SyntaxTree.parse source = .ok tree)
    (isSplit : tree.root.leaves = before ++ left :: right :: after)
    (touches : (right.span source).start = (left.span source).stop)
    (leftEnds : ∃ char ∈ (left.chars source).getLast?, Lexeme.isWordPart char = true)
    (rightBegins : ∃ char ∈ (right.chars source).head?, Lexeme.isWordPart char = true) :
    (∃ word ∈ itemWords, ∃ text, left.lexeme? source = some (word, text)) ∧
      ∀ last ∈ before.getLast?, ∃ ending ∈ [Terminal.semicolon, .rightBrace],
        ∃ text, last.lexeme? source = some (ending, text) := by
  rcases exists_turn_of_parse accepted isSplit with
    ⟨earlier, token, others, stack, later, rfl, rfl, areOthers, turn⟩
  rcases List.map_eq_cons_iff.mp areOthers.symm with ⟨second, more, rfl, rfl, rfl⟩
  rcases turn.next with ⟨_, nextTurn⟩
  rw [chars_of_turn turn] at leftEnds
  rw [chars_of_turn nextTurn] at rightBegins
  rcases turn.ends_word touches leftEnds rightBegins with ⟨isItem, isEnding⟩
  refine ⟨⟨token.1, isItem, _, lexeme?_of_turn turn⟩, ?_⟩
  intro last isLast
  rw [List.getLast?_map] at isLast
  rcases Option.map_eq_some_iff.mp isLast with ⟨leaf, isLeaf, rfl⟩
  exact ⟨leaf.1, isEnding leaf isLeaf, _, rfl⟩

theorem exists_glued : ∃ tree left right after, SyntaxTree.parse gluedSource = .ok tree ∧
    tree.root.leaves = left :: right :: after ∧ left.span gluedSource = ⟨0, 6⟩ ∧
    right.span gluedSource = ⟨6, 7⟩ := by
  rcases exists_ok_of_any sources_tested.2 with ⟨tree, accepted, begins⟩
  rw [beginsWith] at begins
  split at begins
  · rename_i left right after areLeaves
    rw [Bool.and_eq_true, beq_iff_eq, beq_iff_eq] at begins
    exact ⟨tree, left, right, after, accepted, areLeaves, begins⟩
  · cases begins

theorem words_touch_gluedSource :
    ∃ tree left right after, SyntaxTree.parse gluedSource = .ok tree ∧
      tree.root.leaves = left :: right :: after ∧
      (right.span gluedSource).start = (left.span gluedSource).stop ∧
      ∃ word ∈ itemWords, ∃ text, left.lexeme? gluedSource = some (word, text) := by
  rcases exists_glued with ⟨tree, left, right, after, accepted, areLeaves, isLeft, isRight⟩
  have touches : (right.span gluedSource).start = (left.span gluedSource).stop := by
    rw [isLeft, isRight]
  have leftEnds : ∃ char ∈ (left.chars gluedSource).getLast?, Lexeme.isWordPart char = true := by
    rw [Node.chars, isLeft]
    exact ⟨'t', by decide, by decide⟩
  have rightBegins : ∃ char ∈ (right.chars gluedSource).head?, Lexeme.isWordPart char = true := by
    rw [Node.chars, isRight]
    exact ⟨'A', by decide, by decide⟩
  have isSplit : tree.root.leaves = [] ++ left :: right :: after := areLeaves
  have found := words_touch accepted isSplit touches leftEnds rightBegins
  exact ⟨tree, left, right, after, accepted, areLeaves, touches, found.1⟩

/-- A keyword can be split off the front of a longer word. -/
theorem words_not_apart :
    ¬ ∀ source tree, SyntaxTree.parse source = .ok tree → tree.WordsApart := by
  intro always
  rcases exists_glued with ⟨tree, left, right, after, accepted, areLeaves, isLeft, isRight⟩
  have isSource := (grammatical_of_parse accepted).1
  have apart := always gluedSource tree accepted [] left right after areLeaves
  rw [isSource, Node.chars, Node.chars, isLeft, isRight] at apart
  exact absurd (apart ⟨'t', by decide, by decide⟩ ⟨'A', by decide, by decide⟩) (by decide)

end ShaderReflection.Tree

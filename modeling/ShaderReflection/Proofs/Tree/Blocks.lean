import ShaderReflection.Proofs.Tree.Neighbours
import ShaderReflection.Proofs.Tree.Respacing
import ShaderReflection.Proofs.Wgsl.Braces

/-!
# Blocks

A block ends with the brace that a plain scanner finds, which counts braces and skips comments
(`parse_matches_braces`). The braces that the scanner counts are leaves of the block and of the
blocks inside it, and no leaf reaches into a comment.
-/

namespace ShaderReflection.Tree

open ShaderReflection.Grammar ShaderReflection.Wgsl ShaderReflection.Text

variable {source : List Char} {tree : SyntaxTree} {block : Node}

namespace Phrase

/-! ## Levels -/

theorem nests_leavesOfAll {κ : Type} {parts : List (Phrase κ)} {depth : Nat}
    (each : ∀ part ∈ parts, Nests depth part.leaves depth) :
    Nests depth (leavesOfAll parts) depth := by
  induction parts with
  | nil => exact .nil
  | cons part parts induction =>
      rcases List.forall_mem_cons.mp each with ⟨nests, others⟩
      exact nests.append (induction others)

/-- Behind a part of a body as many braces are open as in front of it. -/
theorem Derives.nests {κ : Type} {phrase : Phrase κ} (derives : phrase.Derives)
    (isPart : phrase.symbol ∈ blockParts) (depth : Nat) :
    Nests (depth + 1) phrase.leaves (depth + 1) := by
  induction derives generalizing depth with
  | leaf terminal token =>
      have isText : terminal = .bodyText := by simpa [symbol, blockParts] using isPart
      exact isText ▸ .cons .text .nil
  | node kind children isRow below induction =>
      have isBlock : kind = .compoundStatement := by simpa [symbol, blockParts] using isPart
      subst isBlock
      rcases (Derives.node _ children isRow below).exists_block with
        ⟨opening, inner, closing, isBody, areParts⟩
      cases isBody
      rw [← body, leaves_body]
      refine .cons .opens ((nests_leavesOfAll ?_).append (.cons .closes .nil))
      intro part isInner
      exact induction part (by simp [isInner]) (areParts part isInner).2 (depth + 1)

/-! ## Phrases of a phrase -/

/-- A node of the tree of a phrase is the tree of a phrase in it. -/
theorem Derives.exists_of_mem_walk {phrase : Phrase Token} (derives : phrase.Derives) {node : Node}
    (inTree : node ∈ phrase.toNode.walk) :
    ∃ (part : Phrase Token) (before after : List (Terminal × Token)), node = part.toNode ∧
      part.Derives ∧ phrase.leaves = before ++ (part.leaves ++ after) := by
  induction derives with
  | leaf terminal token =>
      rw [Node.mem_walk_token.mp inTree]
      exact ⟨.leaf terminal token, [], [], rfl, .leaf terminal token, rfl⟩
  | node kind children isRow below induction =>
      rcases Node.mem_walk_named.mp inTree with rfl | ⟨child, isChild, inChild⟩
      · exact ⟨.node kind children, [], [], rfl, .node kind children isRow below, by simp⟩
      · rw [toNodes_eq_map] at isChild
        rcases List.mem_map.mp isChild with ⟨phrase, isPhrase, rfl⟩
        rcases induction phrase isPhrase inChild with
          ⟨part, before, after, isPart, partDerives, areLeaves⟩
        rcases List.append_of_mem isPhrase with ⟨earlier, later, rfl⟩
        refine ⟨part, leavesOfAll earlier ++ before, after ++ leavesOfAll later, isPart,
          partDerives, ?_⟩
        rw [leaves, leavesOfAll_append, leavesOfAll, areLeaves]
        simp only [List.append_assoc]

end Phrase

/-- Every leaf of a block is a child of the block or of a block inside it. -/
theorem Node.Grammatical.exists_block (grammatical : block.Grammatical source)
    (isBlock : block.kind? = some .compoundStatement) {leaf : Node} (isLeaf : leaf ∈ block.leaves) :
    ∃ inner ∈ block.walk, inner.kind? = some .compoundStatement ∧ leaf ∈ inner.children := by
  induction grammatical with
  | token terminal span isText => cases isBlock
  | named kind children row isRow symbols below induction =>
      cases isBlock
      have ofKind : OfKind source .compoundStatement
          (.named (.known _) (cover children) children) :=
        ⟨.named _ children row isRow symbols below, rfl, rfl⟩
      rw [leaves, leavesOfAll_eq_flatMap] at isLeaf
      rcases List.mem_flatMap.mp isLeaf with ⟨child, isChild, inChild⟩
      cases below child isChild with
      | token terminal span isText =>
          rw [leaves, List.mem_singleton] at inChild
          exact ⟨_, mem_walk_self _, rfl, inChild ▸ isChild⟩
      | named inner parts innerRow isInnerRow innerSymbols innerBelow =>
          have onlyBlocks : ∀ kind ∈ Expansion.kinds (rightHandSide .compoundStatement),
              kind = .compoundStatement := by decide
          cases onlyBlocks inner (ofKind.mem_kinds isChild rfl rfl)
          rcases induction _ isChild rfl inChild with ⟨found, inWalk, isFound, inFound⟩
          exact ⟨found, mem_walk_of_child isChild inWalk, isFound, inFound⟩

/-! ## Comments -/

/-- A piece of trivia between leaves that is not white space. -/
def SyntaxTree.IsComment (tree : SyntaxTree) (comment : Span) : Prop :=
  ∃ gap ∈ Span.gaps tree.source.length 0 (tree.root.leaves.map (Node.span tree.source)),
    ∃ row piece rest kind, gap.slice tree.source = row ++ (piece ++ rest) ∧
      Skipped row (piece ++ rest ++ tree.source.drop gap.stop) ∧
      kind ≠ Trivia.space ∧ piece ∈ kind.texts ∧ kind.Ends (rest ++ tree.source.drop gap.stop) ∧
      comment = ⟨gap.start + row.length, gap.start + row.length + piece.length⟩

/-- Gaps lie in order between the spans of a tiling. -/
theorem Tiled.apart {start : Nat} {spans : List Span} (tiled : Tiled source start spans) :
    ∀ gap ∈ Span.gaps source.length start spans, start ≤ gap.start ∧ gap.start ≤ gap.stop ∧
      ∀ span ∈ spans, span.stop ≤ gap.start ∨ gap.stop ≤ span.start := by
  induction tiled with
  | nil inside row => simpa [Span.gaps] using inside
  | @cons start span rest inOrder full inside row further induction =>
      refine List.forall_mem_cons.mpr ⟨⟨Nat.le_refl start, inOrder, ?_⟩, ?_⟩
      · refine List.forall_mem_cons.mpr ⟨.inr (Nat.le_refl _), ?_⟩
        intro later isLater
        exact .inr (Nat.le_trans (Nat.le_of_lt full) (further.bounds later isLater).1)
      · intro gap isGap
        rcases induction gap isGap with ⟨behind, ordered, apart⟩
        exact ⟨by omega, ordered, List.forall_mem_cons.mpr ⟨.inl behind, apart⟩⟩

/-! ## The braces of a block -/

/-- Where the leaves of a node start that are braces. -/
def Node.braceStarts (source : List Char) (node : Node) : List Nat :=
  (node.leaves.filter fun leaf => isBraceText (leaf.chars source)).map fun leaf =>
    (leaf.span source).start

/-- A block and what a plain scanner meets from behind its first brace up to the brace that closes
the block. -/
structure MatchesBraces (tree : SyntaxTree) (block : Node) (inside : List Brace) (closing : Nat) :
    Prop where
  opens : tree.source[(block.span tree.source).start]? = some '\x7b'
  scans : Brace.scan .code 1 ((block.span tree.source).start + 1)
    (tree.source.drop ((block.span tree.source).start + 1)) = some (inside ++ [⟨.code, closing⟩])
  closes : (block.span tree.source).stop = closing + 1
  meets : inside.map Brace.offset = Brace.offsets ((block.span tree.source).start + 1)
    ((⟨(block.span tree.source).start + 1, closing⟩ : Span).slice tree.source)
  counts : block.braceStarts tree.source =
    (block.span tree.source).start :: (Brace.counted inside ++ [closing])
  belongs : ∀ leaf ∈ block.leaves, ∃ inner ∈ block.walk,
    inner.kind? = some .compoundStatement ∧ leaf ∈ inner.children
  skips : ∀ brace ∈ inside, brace.region ≠ .code → ∀ leaf ∈ tree.root.leaves,
    ¬ ((leaf.span tree.source).start ≤ brace.offset ∧ brace.offset < (leaf.span tree.source).stop)

theorem mem_slice {span : Span} {place : Nat} {char : Char} (behind : span.start ≤ place)
    (inFront : place < span.stop) (isChar : char ∈ source[place]?) : char ∈ span.slice source := by
  apply List.mem_of_getElem? (i := place - span.start)
  rw [Span.slice, List.getElem?_take_of_lt (by omega), List.getElem?_drop,
    Nat.add_sub_of_le behind]
  exact isChar

theorem bounds_of_mem_offsets {start stop place : Nat}
    (isMember : place ∈ Brace.offsets start ((⟨start, stop⟩ : Span).slice source)) :
    start ≤ place ∧ place < stop ∧ ∃ char ∈ source[place]?, Brace.isBrace char = true := by
  rcases Brace.mem_offsets.mp isMember with ⟨behind, char, isChar, isBrace⟩
  rw [Option.mem_def, Span.slice, List.getElem?_take, List.getElem?_drop,
    Nat.add_sub_of_le behind] at isChar
  split at isChar
  · rename_i inFront
    exact ⟨behind, by simp only at inFront; omega, char, isChar, isBrace⟩
  · cases isChar

/-- Of leaves that stand apart, one that reaches into a stretch from leaf to leaf is of the
stretch. -/
theorem mem_of_reaches {before row after : List (Terminal × Token)}
    (ascending : (before ++ (row ++ after)).Pairwise
      fun left right => left.2.span.stop ≤ right.2.span.start)
    {first last leaf : Terminal × Token} (isFirst : first ∈ row) (isLast : last ∈ row)
    {offset : Nat} (behind : first.2.span.start ≤ offset) (inFront : offset < last.2.span.stop)
    (isLeaf : leaf ∈ before ++ (row ++ after)) (starts : leaf.2.span.start ≤ offset)
    (stops : offset < leaf.2.span.stop) : leaf ∈ row := by
  rcases List.pairwise_append.mp ascending with ⟨-, inRest, acrossFirst⟩
  rcases List.pairwise_append.mp inRest with ⟨-, -, acrossLast⟩
  rcases List.mem_append.mp isLeaf with isBefore | isRest
  · have apart := acrossFirst leaf isBefore first (List.mem_append_left _ isFirst)
    omega
  · rcases List.mem_append.mp isRest with inRow | isAfter
    · exact inRow
    · have apart := acrossLast last isLast leaf isAfter
      omega

/-- The leaves of a block among those of a source. -/
structure BlockAt (source : List Char) (before : List (Terminal × Token)) (opening : Token)
    (inner : List (Phrase Token)) (closing : Token) (after : List (Terminal × Token)) : Prop where
  areParts : ∀ part ∈ inner, part.Derives ∧ part.symbol ∈ Phrase.blockParts
  ascending : (before ++ ((Phrase.body opening inner closing).leaves ++ after)).Pairwise
    fun left right => left.2.span.stop ≤ right.2.span.start
  texts : ∀ leaf ∈ (Phrase.body opening inner closing).leaves, leaf.2.text ∈ leaf.1.texts
  slices : ∀ leaf ∈ (Phrase.body opening inner closing).leaves,
    leaf.2.span.slice source = leaf.2.text
  turn : ∃ stack later, Turn source before (.leftBrace, opening)
    (Phrase.leavesOfAll inner ++ (.rightBrace, closing) :: after) stack later

/-- Every block of an accepted source stands in it like this. -/
theorem exists_blockAt {phrase : Phrase Token} (isModule : phrase.IsModule)
    (stands : phrase.StandsAt Position.start source) (inTree : block ∈ phrase.toNode.walk)
    (isBlock : block.kind? = some .compoundStatement) :
    ∃ before opening inner closing after, block = (Phrase.body opening inner closing).toNode ∧
      phrase.leaves = before ++ ((Phrase.body opening inner closing).leaves ++ after) ∧
      BlockAt source before opening inner closing after := by
  rcases isModule.derives.exists_of_mem_walk inTree with
    ⟨part, before, after, rfl, derives, areLeaves⟩
  cases part with
  | leaf terminal token => cases isBlock
  | node kind children =>
      cases isBlock
      rcases derives.exists_block with ⟨opening, inner, closing, isBody, areParts⟩
      rw [isBody] at areLeaves ⊢
      have scan := stands.scan isModule
      have areSlices := scan.slice_eq_text Lexeme.lexicon_honest rfl
      have inPhrase : ∀ leaf ∈ (Phrase.body opening inner closing).leaves,
          leaf ∈ phrase.leaves := by
        intro leaf isLeaf
        rw [areLeaves]
        exact List.mem_append_right _ (List.mem_append_left _ isLeaf)
      refine ⟨before, opening, inner, closing, after, rfl, areLeaves, areParts, ?_, ?_, ?_, ?_⟩
      · have ascending := (tiled_of_scan scan rfl (Nat.zero_le _)).pairwise
        rwa [List.pairwise_map, areLeaves] at ascending
      · intro leaf isLeaf
        rw [← areSlices leaf (inPhrase leaf isLeaf)]
        exact slice_mem_texts scan leaf (inPhrase leaf isLeaf)
      · exact fun leaf isLeaf => areSlices leaf (inPhrase leaf isLeaf)
      · apply stands.exists_turn isModule
        rw [areLeaves, Phrase.leaves_body]
        simp

namespace BlockAt

variable {before after : List (Terminal × Token)} {opening closing : Token}
  {inner : List (Phrase Token)} {inside : List Brace}

theorem opening_mem : (.leftBrace, opening) ∈ (Phrase.body opening inner closing).leaves := by
  simp [Phrase.leaves_body]

theorem closing_mem : (.rightBrace, closing) ∈ (Phrase.body opening inner closing).leaves := by
  simp [Phrase.leaves_body]

variable (blockAt : BlockAt source before opening inner closing after)

include blockAt

theorem opening_text : opening.text = ['\x7b'] :=
  Lexeme.eq_of_mem_texts_leftBrace (blockAt.texts _ opening_mem)

theorem closing_text : closing.text = ['\x7d'] :=
  Lexeme.eq_of_mem_texts_rightBrace (blockAt.texts _ closing_mem)

theorem nests : Nests 1 (Phrase.leavesOfAll inner) 1 :=
  Phrase.nests_leavesOfAll fun part isPart =>
    (blockAt.areParts part isPart).1.nests (blockAt.areParts part isPart).2 0

theorem mem_leaves : ∀ leaf ∈ (Phrase.body opening inner closing).leaves,
    leaf.1 ∈ [Terminal.bodyText, .leftBrace, .rightBrace] := by
  rw [Phrase.leaves_body]
  exact List.forall_mem_cons.mpr
    ⟨by simp, List.forall_mem_append.mpr ⟨blockAt.nests.mem, by simp⟩⟩

theorem span_eq : (Phrase.body opening inner closing).toNode.span source =
    ⟨opening.start.offset, closing.start.offset + 1⟩ := by
  rw [Node.span, Phrase.span?_toNode_body, Option.getD_some, Token.span, Token.span,
    blockAt.closing_text]
  rfl

theorem getElem?_start : source[opening.start.offset]? = some '\x7b' := by
  rcases blockAt.turn with ⟨_, _, turn⟩
  have atStart := congrArg (·[0]?) turn.drop_start
  rw [blockAt.opening_text] at atStart
  simpa using atStart

theorem braceStarts_eq : (Phrase.body opening inner closing).toNode.braceStarts source =
    braceStarts (Phrase.body opening inner closing).leaves := by
  rw [Node.braceStarts, Phrase.leaves_toNode, List.filter_map, List.map_map, braceStarts]
  congr 1
  apply List.filter_congr
  intro leaf isLeaf
  exact congrArg isBraceText (blockAt.slices leaf isLeaf)

/-- The scanner meets the braces of the block and stops at the last one. -/
theorem exists_scan : ∃ inside, Brace.scan .code 1 (opening.start.offset + 1)
      (source.drop (opening.start.offset + 1)) =
        some (inside ++ [⟨.code, closing.start.offset⟩]) ∧
    inside.map Brace.offset = Brace.offsets (opening.start.offset + 1)
      ((⟨opening.start.offset + 1, closing.start.offset⟩ : Span).slice source) ∧
    braceStarts (Phrase.body opening inner closing).leaves =
      opening.start.offset :: (Brace.counted inside ++ [closing.start.offset]) := by
  rcases blockAt.turn with ⟨_, _, turn⟩
  have isStop : opening.span.stop = opening.start.offset + 1 := by
    rw [Token.span, blockAt.opening_text]
    rfl
  have isPlace : (opening.start.advance opening.text).offset = opening.start.offset + 1 := by
    rw [Position.offset_advance, blockAt.opening_text]
    rfl
  rcases turn.covers.scan_closing blockAt.nests with ⟨inside, scans, meets, counts⟩
  simp only [isStop, isPlace] at scans meets
  refine ⟨inside, scans, meets, ?_⟩
  rw [Phrase.leaves_body, braceStarts_cons, braceStarts_append, braceStarts_cons,
    blockAt.opening_text, blockAt.closing_text, counts]
  rfl

/-- A brace that is not counted is in no leaf: in a leaf of the block it would be the whole leaf,
which is counted. -/
theorem apart_of_commented
    (counts : braceStarts (Phrase.body opening inner closing).leaves =
      opening.start.offset :: (Brace.counted inside ++ [closing.start.offset]))
    (meets : inside.map Brace.offset = Brace.offsets (opening.start.offset + 1)
      ((⟨opening.start.offset + 1, closing.start.offset⟩ : Span).slice source))
    {brace : Brace} (isInside : brace ∈ inside) (isComment : brace.region ≠ .code)
    {leaf : Terminal × Token}
    (isLeaf : leaf ∈ before ++ ((Phrase.body opening inner closing).leaves ++ after)) :
    ¬ (leaf.2.span.start ≤ brace.offset ∧ brace.offset < leaf.2.span.stop) := by
  rintro ⟨starts, stops⟩
  have isMet : brace.offset ∈ inside.map Brace.offset := List.mem_map_of_mem isInside
  rw [meets] at isMet
  rcases bounds_of_mem_offsets isMet with ⟨behind, inFront, char, isChar, isBrace⟩
  have inBlock : leaf ∈ (Phrase.body opening inner closing).leaves := by
    refine mem_of_reaches blockAt.ascending opening_mem closing_mem ?_ ?_ isLeaf starts stops
    · exact Nat.le_of_succ_le behind
    · exact Nat.lt_of_lt_of_le inFront (Nat.le_add_right _ _)
  have inText : char ∈ leaf.2.text := by
    rw [← blockAt.slices leaf inBlock]
    exact mem_slice starts stops isChar
  have isWhole := isBraceText_of_mem (blockAt.mem_leaves leaf inBlock) (blockAt.texts leaf inBlock)
    inText isBrace
  have isStart : leaf.2.start.offset = brace.offset := by
    rw [Token.span, length_of_isBraceText isWhole] at stops
    exact Nat.le_antisymm starts (Nat.le_of_lt_succ stops)
  have isStarting := mem_braceStarts inBlock isWhole
  rw [counts, isStart] at isStarting
  simp only [List.mem_cons, List.mem_append, List.not_mem_nil, or_false] at isStarting
  rcases isStarting with isOpening | isCounted | isClosing
  · omega
  · refine isComment (Brace.region_of_mem_counted ?_ isInside isCounted)
    rw [meets]
    exact Brace.pairwise_offsets
  · omega

end BlockAt

theorem exists_matchesBraces {phrase : Phrase Token} (isModule : phrase.IsModule)
    (stands : phrase.StandsAt Position.start source) (inTree : block ∈ phrase.toNode.walk)
    (isBlock : block.kind? = some .compoundStatement) :
    ∃ inside closing, MatchesBraces ⟨source, phrase.toNode⟩ block inside closing := by
  have grammatical := isModule.derives.grammatical (slice_mem_texts (stands.scan isModule))
  have belongs : ∀ leaf ∈ block.leaves, ∃ inner ∈ block.walk,
      inner.kind? = some .compoundStatement ∧ leaf ∈ inner.children :=
    fun leaf isLeaf => (grammatical.of_mem_walk inTree).exists_block isBlock isLeaf
  rcases exists_blockAt isModule stands inTree isBlock with
    ⟨before, opening, inner, closing, after, rfl, areLeaves, blockAt⟩
  rcases blockAt.exists_scan with ⟨inside, scans, meets, counts⟩
  refine ⟨inside, closing.start.offset, ?_⟩
  constructor
  case belongs => exact belongs
  case skips =>
    intro brace isInside isComment leaf isLeaf
    rw [Phrase.leaves_toNode, areLeaves] at isLeaf
    rcases List.mem_map.mp isLeaf with ⟨token, isToken, rfl⟩
    exact blockAt.apart_of_commented counts meets isInside isComment isToken
  all_goals rw [blockAt.span_eq]
  case opens => exact blockAt.getElem?_start
  case scans => exact scans
  case meets => exact meets
  case counts => exact blockAt.braceStarts_eq.trans counts

/-- A block ends where a plain scanner of braces stops. Of the braces that the scanner meets it
counts those that are leaves of the block or of a block inside it, and the others are in no leaf.
No leaf of the tree reaches into a comment. -/
theorem parse_matches_braces (accepted : SyntaxTree.parse source = .ok tree) :
    (∀ block ∈ tree.root.walk, block.kind? = some .compoundStatement →
      ∃ inside closing, MatchesBraces tree block inside closing) ∧
    ∀ comment, tree.IsComment comment → ∀ leaf ∈ tree.root.leaves,
      (leaf.span source).stop ≤ comment.start ∨ comment.stop ≤ (leaf.span source).start := by
  rcases parse_eq_ok_iff.mp accepted with ⟨phrase, isModule, rfl, stands⟩
  refine ⟨fun block => exists_matchesBraces isModule stands, ?_⟩
  rintro comment ⟨gap, isGap, row, piece, rest, kind, isText, -, -, -, -, rfl⟩ leaf isLeaf
  rcases (tiled_of_parse accepted).apart gap isGap with ⟨-, inOrder, apart⟩
  replace apart := apart _ (List.mem_map_of_mem isLeaf)
  have sameLength := congrArg List.length isText
  rw [Span.slice, List.length_append, List.length_append, List.length_take] at sameLength
  simp only
  omega

/-- A body with a block in it, a quotient, and braces in comments. -/
def bracedSource : List Char := "fn f() \x7b a /* \x7d */ \x7b b / c \x7d // \x7d\n \x7d".toList

/-- Where the leaves of the function stand. -/
def bracedSpans : List Span :=
  [⟨0, 2⟩, ⟨3, 4⟩, ⟨4, 5⟩, ⟨5, 6⟩, ⟨7, 8⟩, ⟨9, 11⟩, ⟨19, 20⟩, ⟨21, 27⟩, ⟨27, 28⟩, ⟨35, 36⟩]

/-- What all leaves span, and one of the blocks. -/
def hasBlock (source : List Char) (spans : List Span) (span : Span) (tree : SyntaxTree) : Bool :=
  tree.root.leaves.map (Node.span source) == spans &&
    tree.root.walk.any fun block =>
      block.kind? == some .compoundStatement && block.span source == span

theorem parse_matches_bracedSource :
    ∃ tree block inside, SyntaxTree.parse bracedSource = .ok tree ∧ block ∈ tree.root.walk ∧
      inside = [⟨.blockComment, 14⟩, ⟨.code, 19⟩, ⟨.code, 27⟩, ⟨.lineComment, 32⟩] ∧
      MatchesBraces tree block inside 35 ∧ tree.IsComment ⟨11, 18⟩ ∧
      ∀ leaf ∈ tree.root.leaves,
        (leaf.span bracedSource).stop ≤ 11 ∨ 18 ≤ (leaf.span bracedSource).start := by
  have checked : (SyntaxTree.parse bracedSource).toOption.any
      (hasBlock bracedSource bracedSpans ⟨7, 36⟩) = true := by
    decide +kernel
  rcases exists_ok_of_any checked with ⟨tree, accepted, isBraced⟩
  rw [hasBlock, Bool.and_eq_true, beq_iff_eq] at isBraced
  rcases isBraced with ⟨areSpans, someBlock⟩
  rcases List.any_eq_true.mp someBlock with ⟨block, inTree, isBlock⟩
  rw [Bool.and_eq_true, beq_iff_eq, beq_iff_eq] at isBlock
  have isSource := (grammatical_of_parse accepted).1
  have matched := parse_matches_braces accepted
  rcases matched.1 block inTree isBlock.1 with ⟨inside, closing, blockMatches⟩
  have scans := blockMatches.scans
  rw [isSource, isBlock.2] at scans
  have scanned : Brace.scan .code 1 8 (bracedSource.drop 8) =
      some ([⟨.blockComment, 14⟩, ⟨.code, 19⟩, ⟨.code, 27⟩, ⟨.lineComment, 32⟩] ++
        [⟨.code, 35⟩]) := by decide
  rcases List.append_inj' (Option.some.inj (scanned.symm.trans scans)) rfl with ⟨rfl, isClosing⟩
  cases isClosing
  have isComment : tree.IsComment ⟨11, 18⟩ := by
    refine ⟨⟨11, 19⟩, ?_, [], "/* \x7d */".toList, [' '], .blockComment, ?_, .nil, by decide, ?_,
      trivial, rfl⟩
    · rw [isSource, areSpans]
      decide
    · rw [isSource]
      decide
    · exact ⟨" \x7d ".toList, by decide, by decide⟩
  exact ⟨tree, block, _, accepted, inTree, rfl, blockMatches, isComment, matched.2 _ isComment⟩

end ShaderReflection.Tree

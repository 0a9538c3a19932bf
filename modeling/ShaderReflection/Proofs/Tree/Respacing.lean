import ShaderReflection.Proofs.Tree.Bodies

/-!
# Other trivia between tokens

Outside of the bodies of functions, whatever stands between two tokens can be replaced by white
space and comments: the tree shows the same kinds, terminals and texts (`parse_respaced`).
-/

namespace ShaderReflection.Text.Span

/-- A gap lies between two neighbours, or at one of the ends. -/
theorem exists_of_mem_gaps {start stop : Nat} {spans : List Span} {gap : Span}
    (isGap : gap ∈ gaps stop start spans) :
    ∃ before after, spans = before ++ after ∧
      gap.start = (before.getLast?.map Span.stop).getD start ∧
      gap.stop = (after.head?.map Span.start).getD stop := by
  induction spans generalizing start with
  | nil =>
      cases List.mem_singleton.mp isGap
      exact ⟨[], [], rfl, rfl, rfl⟩
  | cons span rest induction =>
      rcases List.mem_cons.mp isGap with rfl | isLater
      · exact ⟨[], span :: rest, rfl, rfl, rfl⟩
      · rcases induction isLater with ⟨before, after, rfl, isStart, isStop⟩
        refine ⟨span :: before, after, rfl, ?_, isStop⟩
        rw [isStart, List.getLast?_cons]
        cases before.getLast? <;> rfl

end ShaderReflection.Text.Span

namespace ShaderReflection.Tree

open ShaderReflection.Grammar ShaderReflection.Wgsl ShaderReflection.Text

variable {source : List Char}

/-! ## What stands in front of a gap -/

/-- The leaves of a tree stand one behind the other. -/
theorem leaves_ascend {phrase : Phrase Token}
    (accepted : SyntaxTree.parse source = .ok ⟨source, phrase.toNode⟩) :
    (∀ leaf ∈ phrase.leaves, leaf.2.span.start < leaf.2.span.stop) ∧
      phrase.leaves.Pairwise fun left right => left.2.span.stop ≤ right.2.span.start := by
  have tiling := tiling_of_parse accepted
  rw [Phrase.leaves_toNode, List.map_map] at tiling
  exact ⟨List.forall_mem_map.mp tiling.full, List.pairwise_map.mp tiling.ascending⟩

/-- What stands between the braces of a body comes behind the first and in front of the last. -/
theorem between_braces {earlier parts inner later : List (Phrase Token)} {opening closing : Token}
    (ascending : (Phrase.leavesOfAll
      (earlier ++ Phrase.function parts (Phrase.body opening inner closing) :: later)).Pairwise
        fun left right => left.2.span.stop ≤ right.2.span.start)
    {leaf : Terminal × Token} (isInner : leaf ∈ Phrase.leavesOfAll inner) :
    opening.span.stop ≤ leaf.2.span.start ∧ leaf.2.span.stop ≤ closing.span.start := by
  rw [Phrase.leavesOfAll_append, Phrase.leavesOfAll, Phrase.leaves_function,
    Phrase.leaves_body] at ascending
  have inFunction := (List.pairwise_append.mp (List.pairwise_append.mp ascending).2.1).1
  have inBody := (List.pairwise_append.mp inFunction).2.1
  rcases List.pairwise_cons.mp inBody with ⟨behindOpening, further⟩
  constructor
  · exact behindOpening leaf (List.mem_append_left _ isInner)
  · exact (List.pairwise_append.mp further).2.2 leaf isInner _ List.mem_cons_self

/-- A gap behind a leaf ends in front of whatever else stands behind the leaf. -/
theorem gap_stop_lt {others after : List (Terminal × Token)} {leaf later : Terminal × Token}
    (full : ∀ each ∈ others ++ [leaf] ++ after, each.2.span.start < each.2.span.stop)
    (ascending : (others ++ [leaf] ++ after).Pairwise
      fun left right => left.2.span.stop ≤ right.2.span.start)
    (isLeaf : later ∈ others ++ [leaf] ++ after)
    (isBehind : leaf.2.span.stop ≤ later.2.span.start) (bound : Nat) :
    (after.head?.map fun next => next.2.span.start).getD bound < later.2.span.stop := by
  rcases List.pairwise_append.mp ascending with ⟨inBefore, inAfter, -⟩
  have laterFull := full later isLeaf
  have leafFull := full leaf (by simp)
  rcases List.mem_append.mp isLeaf with isBefore | isAfter
  · rcases List.mem_append.mp isBefore with isOther | isSame
    · have order := (List.pairwise_append.mp inBefore).2.2 _ isOther leaf List.mem_cons_self
      omega
    · rw [List.mem_singleton.mp isSame] at isBehind
      omega
  · cases after with
    | nil => cases isAfter
    | cons next rest =>
        rw [List.head?_cons, Option.map_some, Option.getD_some]
        rcases List.mem_cons.mp isAfter with rfl | isLater
        · exact laterFull
        · have nextFull := full next (by simp)
          have order := (List.pairwise_cons.mp inAfter).1 later isLater
          omega

/-- In front of a gap outside of all bodies there is no text of a body. -/
theorem ne_bodyText_of_outside {items : List (Phrase Token)}
    (accepted : SyntaxTree.parse source = .ok ⟨source, (Phrase.module items).toNode⟩)
    (isModule : (Phrase.module items).IsModule) {before after : List (Terminal × Token)}
    (isSplit : (Phrase.module items).leaves = before ++ after) {gap : Span}
    (isStart : gap.start = (before.getLast?.map fun leaf => leaf.2.span.stop).getD 0)
    (isStop : gap.stop = (after.head?.map fun leaf => leaf.2.span.start).getD source.length)
    (outside : ∀ body, SyntaxTree.IsBody ⟨source, (Phrase.module items).toNode⟩ body →
      ¬ (body.start < gap.start ∧ gap.stop < body.stop)) :
    ∀ leaf ∈ before.getLast?, leaf.1 ≠ .bodyText := by
  intro leaf isLast isText
  rcases leaves_ascend accepted with ⟨full, ascending⟩
  rcases List.getLast?_eq_some_iff.mp isLast with ⟨others, rfl⟩
  rw [Phrase.leaves_module] at isSplit full ascending
  have inLeaves : leaf ∈ Phrase.leavesOfAll items := by simp [isSplit]
  rcases isModule.exists_function_of_leaf inLeaves isText with
    ⟨earlier, parts, opening, inner, closing, later, rfl, inInner⟩
  rcases between_braces ascending inInner with ⟨opens, closes⟩
  have braces : (.leftBrace, opening) ∈ (others ++ [leaf]) ++ after ∧
      (.rightBrace, closing) ∈ (others ++ [leaf]) ++ after := by
    rw [← isSplit, Phrase.leavesOfAll_append, Phrase.leavesOfAll, Phrase.leaves_function,
      Phrase.leaves_body]
    simp
  rw [isSplit] at full ascending inLeaves
  have leafFull := full leaf inLeaves
  have openingFull := full _ braces.1
  refine outside _ ((isBody_iff accepted isModule).mpr
    ⟨earlier, parts, opening, inner, closing, later, rfl, rfl⟩) ⟨?_, ?_⟩
  · simp only [Option.mem_def.mp isLast, Option.map_some, Option.getD_some] at isStart
    simp only at openingFull ⊢
    omega
  · rw [isStop]
    exact gap_stop_lt full ascending braces.2 closes source.length

/-! ## Other trivia in a gap -/

/-- The same terminals and texts at other places are a module like the first. -/
theorem Phrase.IsModule.exists_standsAt {phrase : Phrase Token} (isModule : phrase.IsModule)
    {tokens : List (Terminal × Token)} {text : List Char}
    (same : tokens.map (Prod.map id Token.text) = phrase.leaves.map (Prod.map id Token.text))
    (covers : Covers (0 :: parser.trace [] phrase.leaves) Position.start text tokens) :
    ∃ found : Phrase Token, found.IsModule ∧ found.map Token.text = phrase.map Token.text ∧
      found.StandsAt Position.start text := by
  rw [← leaves_map] at same
  rcases (phrase.map Token.text).exists_map_eq Token.text tokens same with
    ⟨found, isFound, rfl⟩
  have foundIsModule : found.IsModule := by
    have mapped := isModule.map Token.text
    rw [← isFound] at mapped
    exact mapped.of_map
  have sameLetters : found.leaves.map Prod.fst = phrase.leaves.map Prod.fst := by
    have letters := congrArg (List.map Prod.fst) same
    rwa [leaves_map, List.map_map, List.map_map] at letters
  refine ⟨found, foundIsModule, isFound, ?_⟩
  rw [StandsAt, trace_eq_of_isModule foundIsModule isModule sameLetters]
  exact covers

/-- White space and comments may stand in any gap that has no text of a body in front of it. -/
theorem Phrase.StandsAt.exists_respaced {phrase : Phrase Token}
    (stands : phrase.StandsAt Position.start source) (isModule : phrase.IsModule)
    {before after : List (Terminal × Token)} (isSplit : phrase.leaves = before ++ after)
    (noMark : ∀ leaf ∈ phrase.leaves, ¬ ['/', '*'] <+: source.drop leaf.2.start.offset)
    (noBody : ∀ leaf ∈ before.getLast?, leaf.1 ≠ .bodyText) {char : Char} {filler : List Char}
    (isSpaced : Lexeme.isSpace char = true) (isFiller : Filler (char :: filler)) :
    ∃ front row behind, source = front ++ (row ++ behind) ∧
      front.length = (before.getLast?.map fun leaf => leaf.2.span.stop).getD 0 ∧
      front.length + row.length =
        (after.head?.map fun leaf => leaf.2.span.start).getD source.length ∧
      ∃ found : Phrase Token, found.IsModule ∧ found.map Token.text = phrase.map Token.text ∧
        found.StandsAt Position.start (front ++ (char :: filler ++ behind)) := by
  rw [StandsAt, isSplit] at stands
  rcases stands with ⟨whole, last, rfl, skipped, reads⟩
  rcases reads.exists_append with ⟨front, back, rfl, isFront, isBack⟩
  rw [List.append_assoc] at noMark ⊢
  have covers : Covers _ (Position.start.advance front) (back ++ last) after :=
    ⟨back, last, rfl, skipped, isBack⟩
  rcases covers.exists_row with ⟨row, behind, isRest, -, -, further, isFirst, atEnd⟩
  rw [isRest] at noMark isFront ⊢
  refine ⟨front, row, behind, rfl, ?_, ?_, ?_⟩
  · rw [← Nat.zero_add front.length]
    exact isFront.stop_getLast?.symm
  · cases after with
    | nil => simp [atEnd rfl]
    | cons leaf after => simp [Token.span, isFirst leaf rfl, Position.start]
  · -- The tokens in front of the gap stay where they are, and those behind it move.
    have noMarkInFront : ∀ leaf ∈ before,
        ¬ ['/', '*'] <+: (front ++ (row ++ behind)).drop leaf.2.start.offset :=
      fun leaf isLeaf => noMark leaf (isSplit ▸ List.mem_append_left _ isLeaf)
    have inFront : Reads _ Position.start front before (char :: filler ++ behind) :=
      isFront.respaced rfl noMarkInFront noBody isSpaced
    rcases further.exists_at ((Position.start.advance front).advance (char :: filler)) with
      ⟨moved, movedCovers, sameTexts⟩
    have sameLeaves : (before ++ moved).map (Prod.map id Token.text) =
        phrase.leaves.map (Prod.map id Token.text) := by
      rw [isSplit, List.map_append, List.map_append, sameTexts]
    refine isModule.exists_standsAt sameLeaves ?_
    rw [isSplit]
    exact (Covers.after_filler isFiller movedCovers).append inFront

/-- Whatever stands in a gap between tokens outside of the bodies of functions can be replaced by
white space and closed comments that begin with white space: the new source is accepted, and its
tree shows the same. No leaf may stand where a comment seems to begin, for the comments put in could
close it. -/
theorem parse_respaced {filler : List Char} {tree : SyntaxTree}
    (accepted : SyntaxTree.parse source = .ok tree) (noMark : tree.NoLeafAtMark) {gap : Span}
    (isGap : gap ∈ Span.gaps source.length 0 (tree.root.leaves.map (Node.span source)))
    (outside : ∀ body, tree.IsBody body → ¬ (body.start < gap.start ∧ gap.stop < body.stop))
    (isFiller : Filler filler) (begins : ∃ char ∈ filler.head?, Lexeme.isSpace char = true) :
    ∃ respaced phrase,
      SyntaxTree.parse (source.take gap.start ++ filler ++ source.drop gap.stop) = .ok respaced ∧
        tree.root.phrase? tree.source = some phrase ∧
        respaced.root.phrase? respaced.source = some phrase := by
  rcases parse_eq_ok_iff.mp accepted with ⟨phrase, isModule, rfl, stands⟩
  rcases isModule.exists_items with ⟨items, rfl⟩
  rcases Span.exists_of_mem_gaps isGap with ⟨earlier, later, areSpans, isStart, isStop⟩
  rw [Phrase.leaves_toNode, List.map_map] at areSpans
  rcases List.map_eq_append_iff.mp areSpans with ⟨before, after, isSplit, rfl, rfl⟩
  rw [List.getLast?_map, Option.map_map] at isStart
  rw [List.head?_map, Option.map_map] at isStop
  rcases begins with ⟨char, isFirst, isSpaced⟩
  rcases List.head?_eq_some_iff.mp isFirst with ⟨more, rfl⟩
  have noBody := ne_bodyText_of_outside accepted isModule isSplit isStart isStop outside
  rcases stands.exists_respaced isModule isSplit (notMark_of_noLeafAtMark noMark) noBody isSpaced
    isFiller with
    ⟨front, row, behind, isSource, isFront, isBehind, found, foundIsModule, same, foundStands⟩
  have newSource : source.take gap.start ++ char :: more ++ source.drop gap.stop =
      front ++ (char :: more ++ behind) := by
    have atStart : gap.start = front.length := isStart.trans isFront.symm
    have atStop : gap.stop = front.length + row.length := isStop.trans isBehind.symm
    rw [atStart, atStop, ← List.drop_drop, isSource, List.take_left, List.drop_left,
      List.drop_left, List.append_assoc]
  rw [newSource]
  refine ⟨_, _, parse_eq_ok_iff.mpr ⟨found, foundIsModule, rfl, foundStands⟩,
    phrase?_of_scan (stands.scan isModule), ?_⟩
  rw [← same]
  exact phrase?_of_scan (foundStands.scan foundIsModule)

/-- A quotient without white space, behind a function. -/
def quotientSource : List Char := "fn f()\x7bc\x7dconst x=a/b;".toList

/-- The gap behind the slash. -/
def quotientGap : Span := ⟨19, 19⟩

def quotientFiller : List Char := " /* d */// e\n ".toList

theorem filler_quotientFiller : Filler quotientFiller := by
  have isClosed : "/* d */".toList ∈ Trivia.blockComment.texts := ⟨" d ".toList, rfl, by decide⟩
  have isLine : '\n' ∉ " e".toList := by decide
  have spaced : ∀ {rest}, Filler rest → Filler (' ' :: rest) := .space (by decide)
  exact spaced (.blockComment isClosed (.lineComment isLine (spaced .nil)))

theorem parse_respaced_quotientSource :
    ∃ tree respaced phrase, SyntaxTree.parse quotientSource = .ok tree ∧ tree.NoLeafAtMark ∧
      quotientGap ∈ Span.gaps quotientSource.length 0
        (tree.root.leaves.map (Node.span quotientSource)) ∧
      SyntaxTree.parse (quotientSource.take quotientGap.start ++ quotientFiller ++
        quotientSource.drop quotientGap.stop) = .ok respaced ∧
      tree.root.phrase? tree.source = some phrase ∧
      respaced.root.phrase? respaced.source = some phrase := by
  have checked : (SyntaxTree.parse quotientSource).toOption.any (fun tree =>
      decide (tree.NoLeafAtMark ∧
        quotientGap ∈ Span.gaps quotientSource.length 0
          (tree.root.leaves.map (Node.span quotientSource)) ∧
        ∀ function ∈ tree.root.walk, function.kind? = some .functionDeclaration →
          ∀ body ∈ function.children, body.kind? = some .compoundStatement →
            ¬ ((body.span tree.source).start < quotientGap.start ∧
              quotientGap.stop < (body.span tree.source).stop))) = true := by
    decide +kernel
  rcases exists_ok_of_any checked with ⟨tree, accepted, isClear⟩
  rcases of_decide_eq_true isClear with ⟨noMark, isGap, outside⟩
  have isOutside : ∀ body, tree.IsBody body →
      ¬ (body.start < quotientGap.start ∧ quotientGap.stop < body.stop) := by
    rintro _ ⟨function, inTree, isFunction, body, isBody, isCompound, rfl⟩
    exact outside function inTree isFunction body isBody isCompound
  rcases parse_respaced accepted noMark isGap isOutside filler_quotientFiller
    ⟨' ', rfl, by decide⟩ with ⟨respaced, phrase, found⟩
  exact ⟨tree, respaced, phrase, accepted, noMark, isGap, found⟩

end ShaderReflection.Tree

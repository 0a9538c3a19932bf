import ShaderReflection.Proofs.Wgsl.Boundaries

/-!
# In front of the end of a list

What is read in front of a `>` does not depend on what stands behind it, as long as that closes no
comment (`Lexeme.read_before_closing`); so the text behind it can be shortened (`Reads.shorten`).
Whether the `>` itself is still read as the end of a list depends on what is acceptable there
(`Lexeme.read_closing`, `Lexeme.read_shift`), and that on the token before it
(`Turn.accepts_binary`).
-/

namespace ShaderReflection.Wgsl.Lexeme

open ShaderReflection.Grammar ShaderReflection.Text Texts Computability Lexicon

variable {text word others old new : List Char} {first : Char} {accepted : Terminal → Bool}
  {letter : Terminal}

/-! ## Patterns -/

section Patterns

/-- The patterns that read what they read from the text up to `>`, whatever stands behind it. -/
theorem agrees_of_cuts {pattern : Pattern Terminal}
    (inside : ∀ behind, ∀ word ∈ pattern.read (first :: (others ++ '>' :: behind)),
      word.length ≤ others.length + 2)
    (cuts : ∀ behind, CutsAt (first :: (others ++ ['>'])) behind pattern.read) :
    Agrees letter word (first :: (others ++ '>' :: old)) (first :: (others ++ '>' :: new))
      pattern := by
  have same : ∀ behind, pattern.read (first :: (others ++ '>' :: behind)) =
      pattern.read (first :: (others ++ ['>'])) := by
    intro behind
    have isWhole : first :: (others ++ ['>']) ++ behind = first :: (others ++ '>' :: behind) := by
      simp
    rw [cuts behind, isWhole]
    intro word isRead
    rw [isWhole] at isRead
    have bound := inside behind word isRead
    simp only [List.length_cons, List.length_append, List.length_nil]
    omega
  exact agrees_of_eq ((same new).trans (same old).symm)

theorem agrees_of_over {own : Terminal} {read : List Char → Option (List Char)}
    (sound : ∀ {text word}, read text = some word → word <+: text ∧ word ∈ own.texts)
    (inClass : Over isPlain own.texts)
    (cuts : ∀ behind, CutsAt (first :: (others ++ ['>'])) behind read) :
    Agrees letter word (first :: (others ++ '>' :: old)) (first :: (others ++ '>' :: new))
      ⟨some own, read⟩ := by
  refine agrees_of_cuts ?_ cuts
  intro behind word isRead
  rcases sound isRead with ⟨inFront, isText⟩
  have notMem : '>' ∉ word := fun isMember => nomatch inClass word isText '>' isMember
  rw [← List.cons_append] at inFront
  have bound := length_le_of_notMem inFront notMem
  rw [List.length_cons] at bound
  omega

theorem agrees_of_short {own : Terminal} {read : List Char → Option (List Char)}
    (sound : ∀ {text word}, read text = some word → word <+: text ∧ word ∈ own.texts)
    (short : ∀ word ∈ own.texts, word.length ≤ 2)
    (cuts : ∀ behind, CutsAt (first :: (others ++ ['>'])) behind read) :
    Agrees letter word (first :: (others ++ '>' :: old)) (first :: (others ++ '>' :: new))
      ⟨some own, read⟩ := by
  refine agrees_of_cuts ?_ cuts
  intro behind word isRead
  exact Nat.le_trans (short word (sound isRead).2) (Nat.le_add_left 2 _)

/-- The text of a body is not longer or shorter than before if it ends in front of the `>`. -/
theorem agrees_body (inside : word <+: first :: others) :
    Agrees letter word (first :: (others ++ '>' :: old)) (first :: (others ++ '>' :: new))
      ⟨some .bodyText, bodyText⟩ := by
  have parts : Parts (first :: (others ++ ['>'])) old := by
    intro isSlash
    rw [← List.cons_append, List.getLast?_concat] at isSlash
    cases isSlash
  have isOld : first :: (others ++ ['>']) ++ old = first :: (others ++ '>' :: old) := by simp
  have isNew : first :: (others ++ ['>']) ++ new = first :: (others ++ '>' :: new) := by simp
  have cuts := cutsAt_bodyText first parts
  have goesOn : bodyText (first :: (others ++ ['>'])) ≠ some (first :: (others ++ ['>'])) →
      bodyText (first :: (others ++ ['>']) ++ new) = bodyText (first :: (others ++ ['>'])) :=
    bodyText_append (List.cons_ne_nil _ _)
  rw [CutsAt, isOld] at cuts
  rw [isNew] at goesOn
  constructor
  · intro isSilent
    replace isSilent : bodyText (first :: (others ++ '>' :: old)) = none := isSilent
    have alone := cuts (by simp [isSilent])
    rw [isSilent] at alone
    exact (goesOn (by simp [alone])).trans alone
  · intro isRead _
    replace isRead : bodyText (first :: (others ++ '>' :: old)) = some word := isRead
    have short : word.length < (first :: (others ++ ['>'])).length := by
      have bound := inside.length_le
      simp only [List.length_cons, List.length_append, List.length_nil] at bound ⊢
      omega
    have alone := cuts (by
      intro found isFound
      cases isRead.symm.trans isFound
      exact short.le)
    rw [isRead] at alone
    refine (goesOn ?_).trans alone
    rw [alone]
    intro isWhole
    rw [Option.some.inj isWhole] at short
    exact absurd short (Nat.lt_irrefl _)

/-- A mark that closes a comment is not in front of the `>` and behind it at once. -/
theorem infix_of_isSuffix (isSuffix : new <:+ old)
    (closes : ['*', '/'] <:+: others ++ '>' :: new) : ['*', '/'] <:+: others ++ '>' :: old := by
  induction others with
  | nil =>
      rw [List.nil_append, List.infix_cons_iff] at closes ⊢
      rcases closes with isPrefix | isInfix
      · cases (List.cons_prefix_cons.mp isPrefix).1
      · exact .inr (isInfix.trans isSuffix.isInfix)
  | cons char others induction =>
      rw [List.cons_append, List.infix_cons_iff] at closes ⊢
      rcases closes with isPrefix | isInfix
      · refine .inl ?_
        cases others with
        | nil => cases (List.cons_prefix_cons.mp (List.cons_prefix_cons.mp isPrefix).2).1
        | cons next others =>
            rw [List.cons_append, List.cons_prefix_cons, List.cons_prefix_cons] at isPrefix ⊢
            exact ⟨isPrefix.1, isPrefix.2.1, List.nil_prefix⟩
      · exact .inr (induction isInfix)

/-- A comment that is not closed stays so when there is less behind the `>`. -/
theorem blockComment_shorten (isSuffix : new <:+ old)
    (isSilent : blockComment (first :: (others ++ '>' :: old)) = none) :
    blockComment (first :: (others ++ '>' :: new)) = none := by
  apply Option.eq_none_iff_forall_ne_some.mpr
  intro found reads
  rcases blockComment_eq_map reads with ⟨tail, inner, isText, isInner, -⟩
  cases others with
  | nil => cases isText
  | cons next others =>
      cases isText
      have isOpen : commentRest (others ++ '>' :: old) = none := Option.map_eq_none_iff.mp isSilent
      have isOpenToo : commentRest (others ++ '>' :: new) = none := by
        rw [commentRest_eq_none_iff] at isOpen ⊢
        exact fun closes => isOpen (infix_of_isSuffix isSuffix closes)
      cases isOpenToo.symm.trans isInner

end Patterns

/-! ## Lexemes -/

/-- A spelling has `>` nowhere but at its end. -/
theorem spelling_closes : ∀ spelling ∈ spellings, '>' ∉ spelling.text.dropLast := by
  decide +kernel

/-- A spelling that begins with `>` is that alone. -/
theorem prefix_of_spelling_closes {spelling : Spelling Terminal} {rest : List Char}
    (isSpelling : spelling ∈ spellings) (inFront : spelling.text <+: '>' :: rest) :
    spelling.text <+: ['>'] := by
  have atEnd := spelling_closes spelling isSpelling
  generalize spelling.text = text at inFront atEnd
  cases text with
  | nil => exact List.nil_prefix
  | cons first tail =>
      rw [(List.cons_prefix_cons.mp inFront).1] at atEnd ⊢
      cases tail with
      | nil => exact List.prefix_rfl
      | cons next tail => simp at atEnd

/-- What is read in front of a `>` is read in front of it with less text behind it. -/
theorem read_before_closing (coherent : Coherent accepted)
    (reads : (lexicon.restrict accepted).read (text ++ '>' :: old) = some ⟨some letter, word⟩)
    (inside : word <+: text) (isSuffix : new <:+ old) :
    (lexicon.restrict accepted).read (text ++ '>' :: new) = some ⟨some letter, word⟩ := by
  have isFull := ((lexicon_honest.restrict accepted).isPrefix reads).2
  rcases List.exists_cons_of_ne_nil (inside.ne_nil isFull) with ⟨first, others, rfl⟩
  have binary : ∀ word ∈ binaryOperators.map String.toList, word.length ≤ 2 := by decide
  have unary : ∀ word ∈ Texts.unaryOperators.map String.toList, word.length ≤ 2 := by decide
  have agrees : ∀ pattern ∈ (lexicon.restrict accepted).patterns,
      Agrees letter word (first :: (others ++ '>' :: old)) (first :: (others ++ '>' :: new))
        pattern := by
    intro pattern isPattern
    rcases List.mem_filter.mp isPattern with ⟨inPatterns, isKnown⟩
    simp only [lexicon, patterns, List.mem_cons, List.not_mem_nil, or_false] at inPatterns
    rcases inPatterns with rfl | rfl | rfl | rfl | rfl | rfl | rfl | rfl | rfl | rfl
    · exact agrees_of_over floatLiteral_sound over_float fun _ => cutsAt_floatLiteral
    · exact agrees_body inside
    · exact agrees_of_over intLiteral_sound over_int fun _ => cutsAt_intLiteral
    · exact agrees_of_over word_sound over_identifier fun _ => cutsAt_word first
    · exact agrees_stringLiteral coherent isKnown reads (stringLiteral_of_inside inside)
    · exact agrees_blockComment (blockComment_shorten isSuffix)
    · apply agrees_lineComment
      rw [List.head?_append, List.head?_append, List.head?_cons, List.head?_cons]
      exact id
    · exact agrees_space
    · exact agrees_of_short binaryOperator_sound binary fun _ => cutsAt_binaryOperator first
    · exact agrees_of_short unaryOperator_sound unary fun _ => cutsAt_unaryOperator first
  refine read_of_agrees reads agrees ?_ (inside.trans (List.prefix_append _ _))
  intro spelling isSpelling isFront
  have short : spelling.text.length ≤ (first :: others ++ ['>']).length := by
    have atEnd := spelling_closes spelling isSpelling
    have bound := length_le_of_notMem ((List.dropLast_prefix _).trans isFront) atEnd
    rw [List.length_dropLast] at bound
    rw [List.length_append, List.length_singleton]
    omega
  have upTo : ∀ behind : List Char,
      first :: others ++ ['>'] <+: first :: others ++ '>' :: behind := by
    intro behind
    exact ⟨behind, by simp⟩
  exact (List.prefix_of_prefix_length_le isFront (upTo new) short).trans (upTo old)

/-- Where no operator may come next, `>` is the end of a list whatever stands behind it. -/
theorem read_closing {rest : List Char} (coherent : Coherent accepted)
    (isAccepted : accepted .greater = true) (noBinary : accepted .binaryOperator = false) :
    (lexicon.restrict accepted).read ('>' :: rest) = some ⟨some .greater, ['>']⟩ := by
  have noBody := coherent.noBody isAccepted (by decide)
  have silent : ∀ tail, Silent accepted patterns ('>' :: tail) := by
    intro tail
    have early : Silent accepted (patterns.take 8) ('>' :: tail) :=
      silent_operator (by decide) noBody fun isSlash => absurd isSlash (by decide)
    have noUnary : Lexeme.unaryOperator ('>' :: tail) = none := unaryOperator_eq_none (by decide)
    exact silent_append early (silent_cons_of_unknown noBinary
      (silent_cons (fun _ => noUnary) silent_nil))
  have ordered : lexicon.spellings.Pairwise InOrder := spellings_inOrder
  refine read_restrict_of_spelling greater_mem_spellings isAccepted (silent rest) (silent [])
    (List.prefix_append ['>'] rest) ordered ?_
  intro other isOther _ isFront
  rintro (isType | notPrefix)
  · cases isType
  · exact notPrefix (prefix_of_spelling_closes isOther isFront)

/-- Where an operator may come next, `>` in front of another `>` is a shift. -/
theorem read_shift {rest : List Char} (coherent : Coherent accepted)
    (isBinary : accepted .binaryOperator = true) :
    (lexicon.restrict accepted).read ('>' :: '>' :: rest) =
      some ⟨some .binaryOperator, ['>', '>']⟩ := by
  have noBody := coherent.noBody isBinary (by decide)
  have silent : Silent accepted (patterns.take 8) ('>' :: '>' :: rest) :=
    silent_operator (by decide) noBody fun isSlash => absurd isSlash (by decide)
  refine read_restrict_of_unspelled _ (split_patterns 8 rfl) silent isBinary rfl ?_
  intro spelling isSpelling _ isShift
  apply spelling_closes spelling isSpelling
  rw [isShift]
  exact List.mem_cons_self

end ShaderReflection.Wgsl.Lexeme

namespace ShaderReflection.Wgsl

open ShaderReflection.Grammar ShaderReflection.Text Lexeme

/-! ## Fronts -/

variable {states : List Nat} {position : Position} {front back row other rest behind : List Char}
  {old new : List Char} {terminals others : List (Terminal × Token)}

/-- Tokens in front of a `>` stay as they are when there is less text behind it. -/
theorem Reads.shorten (reads : Reads states position front terminals (row ++ '>' :: old))
    (isSuffix : new <:+ old) : Reads states position front terminals (row ++ '>' :: new) := by
  generalize isRest : row ++ '>' :: old = rest at reads
  induction reads with
  | nil => exact .nil
  | @cons state _ _ _ word front _ letter _ skipped reads _ induction =>
      subst isRest
      have isFull := ((Language.known_honest lexicon_honest state).isPrefix reads).2
      refine .cons (skipped.congr ?_) ?_ (induction rfl)
      · rw [List.head?_append_of_ne_nil _ isFull, List.head?_append_of_ne_nil _ isFull]
      · rw [← List.append_assoc front, ← List.append_assoc word] at reads ⊢
        exact read_before_closing (parser_coherent state) reads (List.prefix_append _ _) isSuffix

/-- The trivia in front of a token is told by the text. -/
theorem Skipped.unique {first second : Nat} {letter another : Terminal} {word text : List Char}
    (left : Skipped row rest) (right : Skipped other behind) (same : row ++ rest = other ++ behind)
    (leftReads : (language.known first).read rest = some ⟨some letter, word⟩)
    (rightReads : (language.known second).read behind = some ⟨some another, text⟩) :
    row = other := by
  induction left generalizing other with
  | nil =>
      cases right with
      | nil => rfl
      | cons kind isText ends _ =>
          rw [List.nil_append, List.append_assoc] at same
          rw [same, known_read_trivia isText ends] at leftReads
          cases leftReads
  | @cons piece row rest kind isText ends _ induction =>
      rw [List.append_assoc] at same
      have skips := known_read_trivia isText ends 0
      cases right with
      | nil =>
          rw [List.nil_append] at same
          rw [← same, known_read_trivia isText ends] at rightReads
          cases rightReads
      | cons _ isTextToo endsToo further =>
          rw [List.append_assoc] at same
          rw [same, known_read_trivia isTextToo endsToo] at skips
          cases skips
          rw [induction further (List.append_cancel_left same) leftReads]

/-- A text falls into its first tokens in one way only. -/
theorem Reads.unique (left : Reads states position front terminals rest)
    (right : Reads states position back others behind) (same : front ++ rest = back ++ behind)
    (sameLength : terminals.length = others.length) : front = back := by
  induction left generalizing back others with
  | nil =>
      cases others with
      | nil =>
          cases right
          rfl
      | cons first others => cases sameLength
  | cons skipped reads _ induction =>
      cases right with
      | nil => cases sameLength
      | cons skippedToo readsToo further =>
          simp only [List.append_assoc] at same
          cases skipped.unique skippedToo same reads readsToo
          have sameText := List.append_cancel_left same
          rw [sameText] at reads
          cases reads.symm.trans readsToo
          rw [induction further (List.append_cancel_left sameText) (Nat.succ.inj sameLength)]

/-! ## What is acceptable -/

/-- Behind a `>` that closes once there is no other. -/
theorem notAccepts_of_closesOnce {frame : Frame Terminal Nonterminal Token}
    {below later : Stack Terminal Nonterminal Token} {token : Token}
    (path : parser.Path (frame :: below))
    (once : closesOnce (parser.state (Stack.state below)) frame.state = true)
    (shifts : parser.feed (frame :: below) (some (.greater, token)) = .ok (.shifted later)) :
    parser.accepts (Stack.state later) .greater = false := by
  rcases (Option.any_eq_true _ _).mp once with ⟨rule, isRule, goesOn⟩
  rcases Option.bind_eq_some_iff.mp isRule with ⟨action, reduces, isReduction⟩
  cases action with
  | shift target => cases isReduction
  | accept => cases isReduction
  | reduce rule =>
      cases isReduction
      rcases Parser.exists_reduce path parser_grounded reduces with ⟨smaller, reduced⟩
      have same : parser.feed (frame :: below) (some (.greater, token)) =
          parser.feed smaller (some (.greater, token)) :=
        Parser.feed_reduce parser_valid rules_graded path reduces reduced
      rcases Parser.eq_of_reduce reduced with ⟨-, target, leads, rfl⟩
      rw [Bool.and_eq_true, Nat.beq_eq] at goesOn
      rcases goesOn with ⟨isSingle, closing⟩
      rw [isSingle, List.drop_one, List.tail_cons] at leads same
      generalize Derivation.node rule _ = tree at same
      have closes := (Option.all_eq_true _ _).mp closing target leads
      rcases (Option.any_eq_true _ _).mp closes with ⟨last, isLast, noOther⟩
      rcases Option.bind_eq_some_iff.mp isLast with ⟨action, isShift, isTarget⟩
      cases action with
      | reduce rule => cases isTarget
      | accept => cases isTarget
      | shift last =>
          cases isTarget
          have shifted : parser.feed (⟨target, tree⟩ :: below) (some (.greater, token)) =
              .ok (.shifted (⟨last, .leaf .greater token⟩ :: ⟨target, tree⟩ :: below)) :=
            Parser.feed_shift isShift
          cases (same.symm.trans shifts).symm.trans shifted
          exact (Bool.not_eq_true' _).mp noOther
namespace Turn

variable {source : List Char} {leaf second last : Terminal × Token}
  {before after : List (Terminal × Token)} {stack later : Stack Terminal Nonterminal Token}

/-- At the first of two lists' ends an operator may come next, if a name or an integer stands in
front of it. -/
theorem accepts_binary (turn : Turn source before leaf (second :: after) stack later)
    (isLeaf : leaf.1 = .greater) (isSecond : second.1 = .greater)
    (isLast : last ∈ before.getLast?) (isOpen : last.1 ∈ [Terminal.identifier, .intLiteral]) :
    parser.accepts (Stack.state stack) .binaryOperator = true := by
  have onTop := turn.onTop
  have path := turn.path
  have isClosing := isLeaf ▸ turn.accepts
  rw [Option.mem_def.mp isLast] at onTop
  cases path with
  | nil => cases onTop
  | @cons frame below belowPath leads =>
      rw [Option.some.inj onTop] at leads
      have suited := (suitedTo_of_target? leads).closes
      rw [closes, isAmong_iff.mpr isOpen, Bool.not_true, Bool.false_or, Bool.or_eq_true,
        Bool.or_eq_true] at suited
      rcases suited with (isBinary | notClosing) | once
      · exact isBinary
      · rw [Bool.not_eq_true'] at notClosing
        cases notClosing.symm.trans isClosing
      · rcases turn.next with ⟨_, nextTurn⟩
        rcases leaf with ⟨letter, token⟩
        cases isLeaf
        have isOther := isSecond ▸ nextTurn.accepts
        rw [notAccepts_of_closesOnce turn.path once turn.shifts] at isOther
        cases isOther

/-! ## Two ends of lists -/

variable {found : List (Terminal × Token)}

/-- Between two tokens there is trivia, and behind it the tokens from the second on. -/
theorem exists_gap (turn : Turn source before leaf (second :: after) stack later) :
    leaf.2.span.stop ≤ second.2.start.offset ∧
      ∃ place, Covers (Stack.state later :: parser.trace later (second :: after)) place
        (source.drop second.2.start.offset) (second :: after) := by
  rcases turn.covers.exists_row with ⟨row, behind, isText, -, -, covers, starts, -⟩
  have isStart : second.2.start.offset = leaf.2.span.stop + row.length := by
    rw [starts second rfl, Position.offset_advance, Position.offset_advance]
    rfl
  refine ⟨isStart ▸ Nat.le_add_right _ _, (leaf.2.start.advance leaf.2.text).advance row, ?_⟩
  rw [isStart, ← List.drop_drop, isText, List.drop_left]
  exact covers

/-- Without the gap behind a `>` the tokens in front of it are the same. -/
theorem exists_shorter (turn : Turn source before leaf (second :: after) stack later)
    (covers : Covers states Position.start source (before ++ leaf :: second :: after))
    (isLeaf : leaf.2.text = ['>']) :
    ∃ front row, source.take leaf.2.span.stop ++ source.drop second.2.start.offset =
        front ++ (row ++ '>' :: source.drop second.2.start.offset) ∧
      Skipped row ('>' :: source.drop second.2.start.offset) ∧
      Reads states Position.start front before
        (row ++ '>' :: source.drop second.2.start.offset) := by
  rcases covers.exists_front with ⟨front, row, isFront, skipped, reads⟩
  have isSuffix : source.drop second.2.start.offset <:+ source.drop leaf.2.span.stop := by
    rw [← Nat.add_sub_of_le turn.exists_gap.1, ← List.drop_drop]
    exact List.drop_suffix _ _
  have atLeaf := turn.drop_start
  rw [isLeaf, List.singleton_append] at atLeaf
  rw [atLeaf] at skipped reads
  refine ⟨front, row, ?_, skipped.congr rfl, reads.shorten isSuffix⟩
  have isStop : leaf.2.span.stop = leaf.2.start.offset + 1 := by
    rw [Token.span, isLeaf]
    rfl
  rw [isStop, List.take_add, atLeaf, isFront]
  simp

/-- If no operator may come next at the first of two lists' ends, they need no gap. -/
theorem covers_shorter (turn : Turn source before leaf (second :: after) stack later)
    (covers : Covers (0 :: parser.trace [] (before ++ leaf :: second :: after)) Position.start
      source (before ++ leaf :: second :: after))
    (isLeaf : leaf.1 = .greater) (isText : leaf.2.text = ['>'])
    (noBinary : parser.accepts (Stack.state stack) .binaryOperator = false) :
    ∃ found, Covers (0 :: parser.trace [] (before ++ leaf :: second :: after)) Position.start
        (source.take leaf.2.span.stop ++ source.drop second.2.start.offset) found ∧
      found.map (Prod.map id Token.text) =
        (before ++ leaf :: second :: after).map (Prod.map id Token.text) := by
  rcases turn.exists_shorter covers isText with ⟨front, row, isShorter, skipped, reads⟩
  rcases turn.exists_gap with ⟨-, place, isBehind⟩
  rcases leaf with ⟨letter, token⟩
  cases isLeaf
  have first : Reads (Stack.state stack :: Stack.state later ::
      parser.trace later (second :: after)) (Position.start.advance front) (row ++ (['>'] ++ []))
        [(.greater, ⟨(Position.start.advance front).advance row, ['>']⟩)]
        (source.drop second.2.start.offset) :=
    .cons skipped (read_closing (parser_coherent _) turn.accepts noBinary) .nil
  rcases isBehind.exists_at ((Position.start.advance front).advance (row ++ (['>'] ++ []))) with
    ⟨others, othersCover, sameTexts⟩
  have fromFirst := Covers.append (by exact othersCover) first
  rw [← turn.states] at fromFirst
  have isRest : row ++ (['>'] ++ []) ++ source.drop second.2.start.offset =
      row ++ '>' :: source.drop second.2.start.offset := by
    simp
  rw [isRest] at fromFirst
  refine ⟨_, isShorter ▸ fromFirst.append reads, ?_⟩
  rw [List.map_append, List.map_append, List.map_append, List.map_cons, sameTexts, ← isText]
  rfl

/-- If an operator may come next at the first of two lists' ends, they do not hold without a
gap: a shift is read. -/
theorem noBinary_of_shorter (turn : Turn source before leaf (second :: after) stack later)
    (covers : Covers (0 :: parser.trace [] (before ++ leaf :: second :: after)) Position.start
      source (before ++ leaf :: second :: after))
    (isText : leaf.2.text = ['>']) (isSecond : second.2.text = ['>'])
    (shorterCovers : Covers (0 :: parser.trace [] (before ++ leaf :: second :: after))
      Position.start (source.take leaf.2.span.stop ++ source.drop second.2.start.offset) found)
    (same : found.map (Prod.map id Token.text) =
      (before ++ leaf :: second :: after).map (Prod.map id Token.text)) :
    parser.accepts (Stack.state stack) .binaryOperator = false := by
  rcases turn.exists_shorter covers isText with ⟨front, row, isShorter, skipped, reads⟩
  rcases turn.next with ⟨_, nextTurn⟩
  have atSecond := nextTurn.drop_start
  rw [isSecond, List.singleton_append] at atSecond
  rw [isShorter, atSecond] at shorterCovers
  rw [atSecond] at skipped reads
  rcases List.map_eq_append_iff.mp (same.trans List.map_append) with
    ⟨earlier, rest, rfl, areEarlier, isRest⟩
  rcases List.map_eq_cons_iff.mp isRest with ⟨closing, others, rfl, isClosing, -⟩
  have sameLength := congrArg List.length areEarlier
  rw [List.length_map, List.length_map] at sameLength
  rcases shorterCovers.exists_front with ⟨other, otherRow, isFront, otherSkipped, otherReads⟩
  rcases shorterCovers.exists_token rfl with ⟨state, _, isState, closingReads, -⟩
  rw [sameLength, turn.states] at isState
  cases isState
  have isWhole := List.take_append_drop closing.2.start.offset
    (front ++ (row ++ '>' :: '>' :: source.drop second.2.span.stop))
  rw [isFront, List.append_assoc] at isWhole
  generalize List.drop closing.2.start.offset _ = rest
    at isWhole otherSkipped otherReads closingReads
  -- In both readings of the shorter text the first tokens are the same, and so is the trivia
  -- behind them.
  cases reads.unique otherReads isWhole.symm sameLength.symm
  have isRest := List.append_cancel_left isWhole
  apply Bool.eq_false_iff.mpr
  intro isBinary
  have shifts : (language.known (Stack.state stack)).read
      ('>' :: '>' :: source.drop second.2.span.stop) = some ⟨some .binaryOperator, ['>', '>']⟩ :=
    read_shift (parser_coherent _) isBinary
  cases skipped.unique otherSkipped isRest.symm shifts closingReads
  rw [List.append_cancel_left isRest] at closingReads
  have sameLexeme := Option.some.inj (shifts.symm.trans closingReads)
  have sameText : ['>', '>'] = closing.2.text := congrArg Lexeme.text sameLexeme
  have isLeaf : closing.2.text = leaf.2.text := congrArg Prod.snd isClosing
  rw [isLeaf, isText] at sameText
  cases sameText

end Turn

end ShaderReflection.Wgsl

import ShaderReflection.Proofs.Wgsl.Turns

/-!
# Where tokens end

What decides between two tokens that touch each other: a slash and an asterisk are two operators
only if no comment can be read there (`read_at_mark`), and words are read to their end, except where
only declarations and directives can begin (`Turn.ends_word`).
-/

namespace ShaderReflection.Wgsl.Lexeme

open ShaderReflection.Grammar ShaderReflection.Text Texts Computability Lexicon

variable {text word rest others : List Char} {char : Char} {accepted : Terminal → Bool}
  {letter : Terminal}

/-! ## Marks of comments -/

/-- The rest of a comment is missing where no closing mark comes. -/
theorem commentRest_eq_none_iff : commentRest text = none ↔ ¬ ['*', '/'] <:+: text := by
  fun_induction commentRest text with
  | case1 => simp
  | case2 rest =>
      have isInfix : ['*', '/'] <:+: '*' :: '/' :: rest := (List.prefix_append _ rest).isInfix
      simp [isInfix]
  | case3 char text notEnd induction =>
      rw [Option.map_eq_none_iff, induction, List.infix_cons_iff, not_or, iff_and_self]
      rintro - isPrefix
      rcases List.cons_prefix_cons.mp isPrefix with ⟨rfl, next⟩
      rcases next with ⟨tail, rfl⟩
      exact notEnd tail rfl rfl

/-- Where a token begins with the opening mark of a comment, the slash is an operator and nothing
closes the comment. -/
theorem read_at_mark
    (reads : (lexicon.restrict accepted).read ('/' :: '*' :: rest) = some ⟨some letter, word⟩) :
    letter = .binaryOperator ∧ word = ['/'] ∧ ¬ ['*', '/'] <:+: rest := by
  have noEnd : ¬ ['*', '/'] <:+: rest := by
    rw [← commentRest_eq_none_iff]
    cases isRest : commentRest rest with
    | none => rfl
    | some inner =>
        have isComment : blockComment ('/' :: '*' :: rest) = some ('/' :: '*' :: inner) := by
          rw [blockComment, isRest]
          rfl
        have skips : (lexicon.restrict accepted).read ('/' :: '*' :: rest) =
            some ⟨none, '/' :: '*' :: inner⟩ :=
          read_restrict_of_unspelled _ (split_patterns 5 rfl) (silent_comment (.inr rfl)) rfl
            isComment fun spelling isSpelling _ => unspelled_trivia (.inr rfl) spelling isSpelling
        cases skips.symm.trans reads
  rcases (lexicon_honest.restrict accepted).isPrefix reads with ⟨inFront, isFull⟩
  rcases List.exists_cons_of_ne_nil isFull with ⟨first, tail, rfl⟩
  cases (List.cons_prefix_cons.mp inFront).1
  rcases read_eq_some reads with isSpelling | ⟨pattern, isPattern, isLetter, isRead, -⟩
  · exact absurd rfl (unspelled_trivia (.inr rfl) _ (List.mem_filter.mp isSpelling).1)
  · have silent : Silent accepted (patterns.take 5) ('/' :: '*' :: rest) :=
      silent_comment (.inr rfl)
    rcases List.mem_filter.mp isPattern with ⟨inPatterns, isKnown⟩
    have isOther : pattern ∉ patterns.take 5 := by
      intro isEarly
      rw [silent pattern isEarly isKnown] at isRead
      cases isRead
    have isLate : pattern ∈ patterns.drop 5 := by
      have isSplit : pattern ∈ patterns.take 5 ++ patterns.drop 5 := by
        rw [List.take_append_drop]
        exact inPatterns
      exact (List.mem_append.mp isSplit).resolve_left isOther
    simp only [patterns, List.drop_succ_cons, List.drop_zero, List.mem_cons, List.not_mem_nil,
      or_false] at isLate
    rcases isLate with rfl | rfl | rfl | rfl | rfl
    · cases isLetter
    · cases isLetter
    · cases isLetter
    · cases isLetter
      have isSlash : binaryOperator ('/' :: '*' :: rest) = some ['/'] := rfl
      cases isSlash.symm.trans isRead
      exact ⟨rfl, rfl, noEnd⟩
    · have isNothing : unaryOperator ('/' :: '*' :: rest) = none := rfl
      cases isNothing.symm.trans isRead

/-! ## Ends of words -/

/-- What stands behind the longest piece of a class is not in the class. -/
theorem stops_of_takeWhile {isMember : Char → Bool}
    (isWhole : (word ++ rest).takeWhile isMember = word) : Stops isMember rest := by
  rcases exists_rest_of_takeWhile isMember (word ++ rest) with ⟨behind, isText, stops⟩
  rw [isWhole, List.append_cancel_left_eq] at isText
  exact isText ▸ stops

/-- A word goes on as long as it can. -/
theorem stops_of_word (reads : Lexeme.word (word ++ rest) = some word) :
    Stops isWordPart rest := by
  cases word with
  | nil =>
      cases rest with
      | nil => simp [Stops]
      | cons first rest =>
          rw [List.nil_append, Lexeme.word] at reads
          split at reads <;> cases reads
  | cons first word =>
      rw [List.cons_append, Lexeme.word] at reads
      split at reads
      · exact stops_of_takeWhile (List.cons.inj (Option.some.inj reads)).2
      · cases reads

/-- The text of a body goes on up to a brace or a comment. -/
theorem bodyRun_ends (isWhole : bodyRun (word ++ rest) = word) : rest = [] ∨
    (∃ char ∈ rest.head?, char = '\x7b' ∨ char = '\x7d') ∨
    ['/', '/'] <+: rest ∨ ['/', '*'] <+: rest := by
  induction word with
  | nil =>
      rw [List.nil_append, bodyRun.eq_def] at isWhole
      split at isWhole
      · exact .inl rfl
      · rename_i tail
        exact .inr (.inr (.inl (List.prefix_append ['/', '/'] tail)))
      · rename_i tail
        exact .inr (.inr (.inr (List.prefix_append ['/', '*'] tail)))
      · rename_i char tail _ _
        split at isWhole
        · rename_i isBrace
          exact .inr (.inl ⟨char, rfl, isBrace⟩)
        · cases isWhole
  | cons first word induction =>
      rw [List.cons_append, bodyRun.eq_def] at isWhole
      split at isWhole
      · cases isWhole
      · cases isWhole
      · cases isWhole
      · rename_i isCons
        cases isCons
        split at isWhole
        · cases isWhole
        · exact induction (List.cons.inj isWhole).2

theorem bodyRun_of_bodyText (reads : bodyText text = some word) : bodyRun text = word := by
  rw [bodyText.eq_def] at reads
  split at reads
  · cases reads
  · split at reads
    · cases reads
    · split at reads
      · cases reads
      · cases reads
        rfl

theorem stops_of_bodyText (reads : bodyText (word ++ rest) = some word) :
    Stops isWordPart rest := by
  rcases bodyRun_ends (bodyRun_of_bodyText reads) with
    rfl | ⟨char, isHead, isBrace⟩ | ⟨tail, rfl⟩ | ⟨tail, rfl⟩
  · simp [Stops]
  · rcases List.head?_eq_some_iff.mp isHead with ⟨tail, rfl⟩
    apply stops_cons
    rcases isBrace with rfl | rfl <;> rfl
  · exact stops_cons rfl
  · exact stops_cons rfl

/-- A terminal without spellings is read by its pattern. -/
theorem exists_pattern_of_read (unspelled : ∀ spelling ∈ spellings, spelling.terminal ≠ letter)
    (reads : (lexicon.restrict accepted).read text = some ⟨some letter, word⟩) :
    ∃ read, ⟨some letter, read⟩ ∈ patterns ∧ read text = some word := by
  rcases read_eq_some reads with isSpelling | ⟨⟨terminal, read⟩, isPattern, rfl, isRead, -⟩
  · exact absurd rfl (unspelled _ (List.mem_filter.mp isSpelling).1)
  · exact ⟨read, (List.mem_filter.mp isPattern).1, isRead⟩

theorem word_of_read
    (reads : (lexicon.restrict accepted).read text = some ⟨some .identifier, word⟩) :
    Lexeme.word text = some word := by
  rcases exists_pattern_of_read (by decide) reads with ⟨read, isPattern, isRead⟩
  have isWord : read = Lexeme.word := by simpa [patterns] using isPattern
  exact isWord ▸ isRead

theorem bodyText_of_read
    (reads : (lexicon.restrict accepted).read text = some ⟨some .bodyText, word⟩) :
    bodyText text = some word := by
  rcases exists_pattern_of_read (by decide) reads with ⟨read, isPattern, isRead⟩
  have isBody : read = bodyText := by simpa [patterns] using isPattern
  exact isBody ▸ isRead

/-- Where words are acceptable, what begins like a word is read to the end of the word. -/
theorem read_eq_word (coherent : Coherent accepted) (isAccepted : accepted .identifier = true)
    (isStart : isWordStart char = true) {lexeme : Lexeme Terminal}
    (reads : (lexicon.restrict accepted).read (char :: others) = some lexeme) :
    Lexeme.word (char :: others) = some lexeme.text := by
  have noBody := coherent.noBody isAccepted (by decide)
  have isWord : Lexeme.word (char :: others) = some (char :: others.takeWhile isWordPart) := by
    rw [Lexeme.word, if_pos isStart]
  rw [read_restrict_of_pattern _ (split_patterns 3 rfl) (silent_word isStart noBody) isAccepted
    isWord] at reads
  split at reads <;> cases reads <;> exact isWord

/-- Words of items are spelled like words. -/
theorem itemWord_starts : ∀ spelling ∈ spellings, spelling.terminal ∈ itemWords →
    spelling.text.head?.any isWordStart = true := by
  decide

theorem itemWord_unread (isWord : letter ∈ itemWords) : ∀ pattern ∈ patterns,
    pattern.terminal ≠ some letter := by
  revert letter
  decide

/-- A word of an item is read to its end where all words are acceptable. -/
theorem stops_of_itemWord (coherent : Coherent accepted) (isAccepted : accepted .identifier = true)
    (isWord : letter ∈ itemWords)
    (reads : (lexicon.restrict accepted).read (word ++ rest) = some ⟨some letter, word⟩) :
    Stops isWordPart rest := by
  rcases read_eq_some reads with isSpelling | ⟨pattern, isPattern, isLetter, -⟩
  · have inSpellings := (List.mem_filter.mp isSpelling).1
    rcases (Option.any_eq_true _ _).mp (itemWord_starts _ inSpellings isWord) with
      ⟨char, isHead, isStart⟩
    rcases List.head?_eq_some_iff.mp isHead with ⟨tail, isText⟩
    simp only at isText
    subst isText
    have isWhole : Lexeme.word (char :: tail ++ rest) = some (char :: tail) :=
      read_eq_word coherent isAccepted isStart reads
    exact stops_of_word isWhole
  · exact absurd isLetter (itemWord_unread isWord pattern (List.mem_filter.mp isPattern).1)

/-! ## Characters of words -/

/-- Only words and numbers begin or end with a character of words. -/
theorem mem_wordTerminals (isText : word ∈ letter.texts)
    (isEnd : ∃ char, (char ∈ word.head? ∨ char ∈ word.getLast?) ∧ isWordPart char = true) :
    letter ∈ wordTerminals := by
  rcases isEnd with ⟨char, atEnd, isPart⟩
  have isAtEnd : word.head?.any isWordPart || word.getLast?.any isWordPart := by
    rcases atEnd with isHead | isLast
    · rw [Option.mem_def.mp isHead, Option.any_some, isPart, Bool.true_or]
    · rw [Option.mem_def.mp isLast, Option.any_some, isPart, Bool.or_true]
  have binary : ∀ word ∈ binaryOperators.map String.toList,
      (word.head?.any isWordPart || word.getLast?.any isWordPart) = false := by
    decide
  have unary : ∀ word ∈ Texts.unaryOperators.map String.toList,
      (word.head?.any isWordPart || word.getLast?.any isWordPart) = false := by
    decide
  have spelled : ∀ spelling ∈ spellings,
      (spelling.text.head?.any isWordPart || spelling.text.getLast?.any isWordPart) = true →
        spelling.terminal ∈ wordTerminals := by
    decide +kernel
  cases letter
  case floatLiteral => decide
  case intLiteral => decide
  case identifier => decide
  case bodyText => decide
  case stringLiteral =>
    rcases Language.mem_mul.mp isText with ⟨front, isFront, _, rfl, rfl⟩
    rcases beginsWith_string _ isText with ⟨first, isHead, isQuote⟩
    rw [Option.mem_def.mp isHead, List.getLast?_concat, beq_iff_eq.mp isQuote] at isAtEnd
    cases isAtEnd
  case binaryOperator =>
    rw [binary word isText] at isAtEnd
    cases isAtEnd
  case unaryOperator =>
    rw [unary word isText] at isAtEnd
    cases isAtEnd
  all_goals exact spelled ⟨word, _⟩ isText isAtEnd

end ShaderReflection.Wgsl.Lexeme

namespace ShaderReflection.Wgsl

open ShaderReflection.Grammar ShaderReflection.Text Lexeme

/-- Trivia begins with white space or a slash. -/
theorem Skipped.begins {row rest : List Char} (skipped : Skipped row rest) :
    ∀ char ∈ row.head?, isSpace char = true ∨ char = '/' := by
  cases skipped with
  | nil => simp
  | @cons piece row _ kind isText _ _ =>
      intro char isHead
      cases kind with
      | space =>
          rcases Texts.mem_several_one.mp isText with ⟨isFull, areSpaces⟩
          rw [List.head?_append_of_ne_nil _ isFull] at isHead
          exact .inl (areSpaces char (List.mem_of_mem_head? isHead))
      | lineComment =>
          rcases mem_lineComment.mp isText with ⟨inner, -, rfl⟩
          cases isHead
          exact .inr rfl
      | blockComment =>
          rcases isText with ⟨inner, rfl, -⟩
          cases isHead
          exact .inr rfl

namespace Turn

variable {source : List Char} {leaf second : Terminal × Token}
  {before after : List (Terminal × Token)} {stack later : Stack Terminal Nonterminal Token}

/-- The text of a token stands in front of what is behind the token. -/
theorem drop_start (turn : Turn source before leaf after stack later) :
    source.drop leaf.2.start.offset = leaf.2.text ++ source.drop leaf.2.span.stop := by
  rcases ((Language.known_honest lexicon_honest _).isPrefix turn.reads).1 with ⟨rest, isText⟩
  simp only at isText
  rw [Token.span, ← List.drop_drop, ← isText, List.drop_left]

theorem slice_eq (turn : Turn source before leaf after stack later) :
    leaf.2.span.slice source = leaf.2.text := by
  rw [Span.slice, Token.span, turn.drop_start, Nat.add_sub_cancel_left, List.take_left]

theorem reads_text (turn : Turn source before leaf after stack later) :
    (language.known (Stack.state stack)).read (leaf.2.text ++ source.drop leaf.2.span.stop) =
      some ⟨some leaf.1, leaf.2.text⟩ :=
  turn.drop_start ▸ turn.reads

/-! ## Slashes -/

/-- Where a token begins with the opening mark of a comment, it is the operator `/`, the operator
`*` touches it, and nothing closes the comment. -/
theorem at_mark (turn : Turn source before leaf after stack later) {rest : List Char}
    (isMark : source.drop leaf.2.start.offset = '/' :: '*' :: rest) :
    leaf.1 = .binaryOperator ∧ leaf.2.text = ['/'] ∧ ¬ ['*', '/'] <:+: rest ∧
      ∃ second others last, after = second :: others ∧ second.1 = .unaryOperator ∧
        second.2.text = ['*'] ∧ second.2.start.offset = leaf.2.span.stop ∧
        Turn source (before ++ [leaf]) second others later last := by
  have reads := turn.reads
  rw [isMark] at reads
  rcases read_at_mark reads with ⟨isBinary, isSlash, noEnd⟩
  have behind := turn.drop_start
  rw [isMark, isSlash, List.singleton_append, List.cons.injEq] at behind
  rcases turn.covers.exists_row with ⟨row, tail, isText, skipped, -, -, starts, isEnd⟩
  have noRow : row = [] := by
    cases row with
    | nil => rfl
    | cons char row =>
        rw [← behind.2, List.cons_append, List.cons.injEq] at isText
        rcases skipped.begins char rfl with isSpaced | isSlash
        · rw [← isText.1] at isSpaced
          cases isSpaced
        · rw [← isText.1] at isSlash
          cases isSlash
  subst noRow
  cases after with
  | nil =>
      rw [← behind.2, isEnd rfl] at isText
      cases isText
  | cons second others =>
      rcases turn.next with ⟨last, nextTurn⟩
      have isStart : second.2.start.offset = leaf.2.span.stop := by
        rw [starts second rfl, Position.advance_nil, Position.offset_advance]
        rfl
      have nextReads := nextTurn.reads
      have isUnary := accepts_unary_behind_binary (isBinary ▸ turn.behind_later)
      have isStar : ['*'] ∈ Texts.unaryOperators.map String.toList := by decide
      have star : (language.known (Stack.state later)).read (['*'] ++ rest) =
          some ⟨some .unaryOperator, ['*']⟩ :=
        read_unary (parser_coherent _) isUnary isStar
      rw [isStart, ← behind.2] at nextReads
      have same := Option.some.inj (nextReads.symm.trans star)
      exact ⟨isBinary, isSlash, noEnd, second, others, last, rfl,
        Option.some.inj (congrArg Lexeme.terminal same), congrArg Lexeme.text same, isStart,
        nextTurn⟩

/-! ## Words -/

/-- A word or number that runs into the next token is a word that an item begins with. -/
theorem ends_word (turn : Turn source before leaf (second :: after) stack later)
    (touches : second.2.start.offset = leaf.2.span.stop)
    (leafEnds : ∃ char ∈ leaf.2.text.getLast?, isWordPart char = true)
    (secondBegins : ∃ char ∈ second.2.text.head?, isWordPart char = true) :
    leaf.1 ∈ itemWords ∧ ∀ last ∈ before.getLast?, last.1 ∈ [Terminal.semicolon, .rightBrace] := by
  rcases turn.next with ⟨last, nextTurn⟩
  have coherent := parser_coherent (Stack.state stack)
  have reads := turn.reads_text
  have goesOn : ¬ Stops isWordPart (source.drop leaf.2.span.stop) := by
    intro stops
    rcases secondBegins with ⟨char, isHead, isPart⟩
    have notPart := stops char (by
      rw [← touches, nextTurn.drop_start, List.head?_append, Option.mem_def.mp isHead]
      rfl)
    rw [isPart] at notPart
    cases notPart
  have isSecond : second.1 ∈ wordTerminals := by
    rcases secondBegins with ⟨char, isHead, isPart⟩
    exact mem_wordTerminals (mem_texts_of_read nextTurn.reads) ⟨char, .inl isHead, isPart⟩
  have isLeaf : leaf.1 ∈ wordTerminals := by
    rcases leafEnds with ⟨char, isLast, isPart⟩
    exact mem_wordTerminals (mem_texts_of_read reads) ⟨char, .inr isLast, isPart⟩
  rw [wordTerminals, List.append_assoc, List.mem_append, List.mem_append] at isLeaf
  rcases isLeaf with isItem | isConstant | isOther
  · refine ⟨isItem, ?_⟩
    intro earlier isEarlier
    by_contra inItem
    have behind := turn.behind
    rw [Option.mem_def.mp isEarlier] at behind
    have isAccepted := accepts_identifier_of_itemWord behind inItem isItem turn.accepts
    exact goesOn (stops_of_itemWord coherent isAccepted isItem reads)
  · have isAccepted := nextTurn.accepts
    rw [notAccepts_behind_constant turn.behind_later isConstant isSecond] at isAccepted
    cases isAccepted
  · simp only [List.mem_cons, List.not_mem_nil, or_false] at isOther
    rcases isOther with isIdentifier | isBody
    · rw [isIdentifier] at reads
      exact absurd (stops_of_word (word_of_read reads)) goesOn
    · rw [isBody] at reads
      exact absurd (stops_of_bodyText (bodyText_of_read reads)) goesOn

end Turn

end ShaderReflection.Wgsl

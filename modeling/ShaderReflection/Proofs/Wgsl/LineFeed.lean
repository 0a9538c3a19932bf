import ShaderReflection.Proofs.Wgsl.Boundaries
import Mathlib.Data.List.Chain

/-!
# A line feed in place of the rest

What has been read of a text is read alike when a line feed and other text take the place of what
has not (`Reads.before_lineFeed`). The other text must not close a comment, because the marks of one
that is open at the end of the text are read as operators. The text of a body goes on over a line
feed, so that something has to stand between the two.
-/

namespace ShaderReflection.Wgsl.Lexeme

open ShaderReflection.Grammar ShaderReflection.Text Texts Lexicon

variable {text word others behind old new : List Char} {first : Char}
  {accepted : Terminal → Bool} {letter : Terminal}

/-! ## Marks of comments -/

/-- A comment seems to begin. -/
def Opens (text : List Char) : Prop := ['/', '/'] <+: text ∨ ['/', '*'] <+: text

/-- A mark is in front of a line feed or behind it. -/
theorem infix_lineFeed {left right : Char} (noFeed : left ≠ '\n' ∧ right ≠ '\n')
    (isMark : [left, right] <:+: text ++ '\n' :: new) :
    [left, right] <:+: text ∨ [left, right] <:+: new := by
  induction text with
  | nil =>
      rw [List.nil_append, List.infix_cons_iff] at isMark
      rcases isMark with isPrefix | isInfix
      · exact absurd (List.cons_prefix_cons.mp isPrefix).1 noFeed.1
      · exact .inr isInfix
  | cons char text induction =>
      rw [List.cons_append, List.infix_cons_iff] at isMark
      rw [List.infix_cons_iff]
      rcases isMark with isPrefix | isInfix
      · refine .inl (.inl ?_)
        rw [List.cons_prefix_cons] at isPrefix ⊢
        refine ⟨isPrefix.1, ?_⟩
        cases text with
        | nil => exact absurd (List.cons_prefix_cons.mp isPrefix.2).1 noFeed.2
        | cons next text =>
            exact List.cons_prefix_cons.mpr
              ⟨(List.cons_prefix_cons.mp isPrefix.2).1, List.nil_prefix⟩
      · exact (induction isInfix).imp_left .inr

/-- A comment that is open at the end of a text stays open behind a line feed. -/
theorem blockComment_lineFeed (noEnd : ¬ ['*', '/'] <:+: new)
    (isSilent : blockComment (first :: (others ++ old)) = none) :
    blockComment (first :: (others ++ '\n' :: new)) = none := by
  apply Option.eq_none_iff_forall_ne_some.mpr
  intro found reads
  rcases blockComment_eq_map reads with ⟨tail, inner, isText, isInner, -⟩
  cases others with
  | nil => cases isText
  | cons next others =>
      cases isText
      have isOpen : commentRest (others ++ old) = none := Option.map_eq_none_iff.mp isSilent
      have isOpenToo : commentRest (others ++ '\n' :: new) = none := by
        rw [commentRest_eq_none_iff] at isOpen ⊢
        intro closes
        rcases infix_lineFeed (by decide) closes with isInfix | isInfix
        · exact isOpen (isInfix.trans (List.prefix_append _ _).isInfix)
        · exact noEnd isInfix
      cases isOpenToo.symm.trans isInner

/-! ## Bodies -/

/-- Behind a character that is neither a brace nor the first mark of a comment, the text of a body
goes on. -/
theorem bodyRun_cons {char next : Char} (noMark : ¬ (char = '/' ∧ (next = '/' ∨ next = '*')))
    (notBrace : ¬ (char = '\x7b' ∨ char = '\x7d')) (text : List Char) :
    bodyRun (char :: next :: text) = char :: bodyRun (next :: text) := by
  rw [bodyRun.eq_4, if_neg notBrace]
  · rintro tail isSlash isNext
    exact noMark ⟨isSlash, .inl (List.cons.inj isNext).1⟩
  · rintro tail isSlash isNext
    exact noMark ⟨isSlash, .inr (List.cons.inj isNext).1⟩

theorem bodyRun_brace {char : Char} (isBrace : char = '\x7b' ∨ char = '\x7d') (text : List Char) :
    bodyRun (char :: text) = [] := by
  rcases isBrace with rfl | rfl <;> simp [bodyRun]

/-- What ends the text of a body is at most two characters long. -/
theorem bodyRun_congr (ends : (bodyRun (text ++ old)).length + 1 < text.length) :
    bodyRun (text ++ new) = bodyRun (text ++ old) := by
  induction text with
  | nil => cases ends
  | cons char text induction =>
      cases text with
      | nil => simp at ends
      | cons next text =>
          rw [List.cons_append, List.cons_append] at ends
          rw [List.cons_append, List.cons_append, List.cons_append, List.cons_append]
          by_cases isMark : char = '/' ∧ (next = '/' ∨ next = '*')
          · rcases isMark with ⟨rfl, rfl | rfl⟩
            · rw [bodyRun, bodyRun]
            · rw [bodyRun, bodyRun]
          · by_cases isBrace : char = '\x7b' ∨ char = '\x7d'
            · rw [bodyRun_brace isBrace, bodyRun_brace isBrace]
            · rw [bodyRun_cons isMark isBrace, List.length_cons, List.length_cons] at ends
              rw [bodyRun_cons isMark isBrace, bodyRun_cons isMark isBrace]
              exact congrArg (char :: ·) (induction (Nat.lt_of_succ_lt_succ ends))

theorem bodyText_of_bodyRun {rest : List Char} (isText : word ∈ Terminal.texts .bodyText)
    (run : bodyRun (word ++ rest) = word) : bodyText (word ++ rest) = some word := by
  rcases isText.begins with ⟨first, isFirst, notBlank⟩
  cases word with
  | nil => cases isFirst
  | cons char word =>
      cases isFirst
      rw [List.cons_append] at run ⊢
      simp only [bodyText, notBlank, run]
      rfl

/-- The text of a body is read alike if it ends in front of a brace or of both marks of a
comment. -/
theorem bodyText_congr (reads : bodyText (word ++ (behind ++ old)) = some word)
    (isFull : behind ≠ []) (noMark : behind = ['/'] → ¬ Opens (behind ++ old)) :
    bodyText (word ++ (behind ++ new)) = some word := by
  have isText := (bodyText_sound reads).2
  have isRun := bodyRun_of_bodyText reads
  apply bodyText_of_bodyRun isText
  rcases behind with _ | ⟨next, _ | ⟨second, behind⟩⟩
  · exact absurd rfl isFull
  · have braced : Braced (next :: new) := by
      rcases bodyRun_ends isRun with isEnd | isBrace | isLine | isBlock
      · cases isEnd
      · simpa [Braced] using isBrace
      · obtain rfl := (List.cons_prefix_cons.mp isLine).1
        exact absurd (.inl isLine) (noMark rfl)
      · obtain rfl := (List.cons_prefix_cons.mp isBlock).1
        exact absurd (.inr isBlock) (noMark rfl)
    exact bodyRun_append isText.noBrace isText.noLineComment isText.noBlockComment braced
  · rw [← List.append_assoc] at isRun ⊢
    rw [bodyRun_congr, isRun]
    rw [isRun]
    simp

/-- The text of a body may go on over a line feed. -/
theorem bodyText_lineFeed (isText : word ∈ Terminal.texts .bodyText) :
    word ++ ['\n'] ∈ Terminal.texts .bodyText := by
  have notEmpty : ∀ {left right : Char}, ¬ [left, right] <:+: [] := by simp
  rcases isText.begins with ⟨first, isFirst, notBlank⟩
  refine ⟨⟨first, ?_, notBlank⟩, ?_, ?_, ?_⟩
  · rw [List.head?_append, Option.mem_def.mp isFirst]
    rfl
  · exact List.forall_mem_append.mpr ⟨isText.noBrace, by simp⟩
  · intro isMark
    exact (infix_lineFeed (by decide) isMark).elim isText.noLineComment notEmpty
  · intro isMark
    exact (infix_lineFeed (by decide) isMark).elim isText.noBlockComment notEmpty

/-! ## Patterns -/

theorem agrees_lineFeed {own : Terminal} {read : List Char → Option (List Char)}
    (isOther : own ∉ [Terminal.stringLiteral, .bodyText])
    (sound : ∀ {text word}, read text = some word → word <+: text ∧ word ∈ own.texts)
    (cuts : ∀ behind, CutsAt text behind read) (inside : word <+: text) :
    Agrees letter word (text ++ old) (text ++ '\n' :: new) ⟨some own, read⟩ := by
  have alone : Agrees letter word text (text ++ '\n' :: new) ⟨some own, read⟩ :=
    agrees_plain isOther sound (cuts _) (by decide)
  constructor
  · intro isSilent
    refine alone.silent ((cuts old ?_).trans isSilent)
    intro found isFound
    cases isFound.symm.trans isSilent
  · intro isRead isOwn
    refine alone.keeps ((cuts old ?_).trans isRead) isOwn
    intro found isFound
    cases isFound.symm.trans isRead
    exact inside.length_le

theorem agrees_body_lineFeed (coherent : Coherent accepted) (isAccepted : accepted .bodyText = true)
    (reads : (lexicon.restrict accepted).read (first :: (others ++ old)) =
      some ⟨some letter, word⟩)
    (keeps : letter = .bodyText → bodyText (first :: (others ++ '\n' :: new)) = some word) :
    Agrees letter word (first :: (others ++ old)) (first :: (others ++ '\n' :: new))
      ⟨some .bodyText, bodyText⟩ := by
  constructor
  · intro isSilent
    have isText := mem_texts_of_read reads
    have inFront := ((lexicon_honest.restrict accepted).isPrefix reads).1
    have isKnown := coherent.body isAccepted letter (accepted_of_read reads)
    simp only [List.mem_cons, List.not_mem_nil, or_false] at isKnown
    rcases isKnown with rfl | rfl | rfl
    · cases (bodyText_of_read reads).symm.trans isSilent
    · rw [eq_of_mem_texts_leftBrace isText] at inFront
      exact bodyText_brace (.inl (List.cons_prefix_cons.mp inFront).1.symm)
    · rw [eq_of_mem_texts_rightBrace isText] at inFront
      exact bodyText_brace (.inr (List.cons_prefix_cons.mp inFront).1.symm)
  · intro isRead _
    exact keeps (eq_bodyText_of_read coherent isAccepted reads isRead)

/-! ## Lexemes -/

theorem read_before_lineFeed (coherent : Coherent accepted)
    (reads : (lexicon.restrict accepted).read (text ++ old) = some ⟨some letter, word⟩)
    (inside : word <+: text) (noEnd : ¬ ['*', '/'] <:+: new)
    (keeps : letter = .bodyText → bodyText (text ++ '\n' :: new) = some word) :
    (lexicon.restrict accepted).read (text ++ '\n' :: new) = some ⟨some letter, word⟩ := by
  have isFull := ((lexicon_honest.restrict accepted).isPrefix reads).2
  rcases List.exists_cons_of_ne_nil (inside.ne_nil isFull) with ⟨first, others, rfl⟩
  have agrees : ∀ pattern ∈ (lexicon.restrict accepted).patterns,
      Agrees letter word (first :: (others ++ old)) (first :: (others ++ '\n' :: new)) pattern := by
    intro pattern isPattern
    rcases List.mem_filter.mp isPattern with ⟨inPatterns, isKnown⟩
    simp only [lexicon, patterns, List.mem_cons, List.not_mem_nil, or_false] at inPatterns
    rcases inPatterns with rfl | rfl | rfl | rfl | rfl | rfl | rfl | rfl | rfl | rfl
    · exact agrees_lineFeed (by decide) floatLiteral_sound (fun _ => cutsAt_floatLiteral) inside
    · exact agrees_body_lineFeed coherent isKnown reads keeps
    · exact agrees_lineFeed (by decide) intLiteral_sound (fun _ => cutsAt_intLiteral) inside
    · exact agrees_lineFeed (by decide) word_sound (fun _ => cutsAt_word first) inside
    · exact agrees_stringLiteral coherent isKnown reads (stringLiteral_of_inside inside)
    · exact agrees_blockComment (blockComment_lineFeed noEnd)
    · apply agrees_lineComment
      cases others with
      | nil =>
          intro isSlash
          cases isSlash
      | cons next others => exact id
    · exact agrees_space
    · exact agrees_lineFeed (by decide) binaryOperator_sound
        (fun _ => cutsAt_binaryOperator first) inside
    · exact agrees_lineFeed (by decide) unaryOperator_sound
        (fun _ => cutsAt_unaryOperator first) inside
  refine read_of_agrees reads agrees ?_ (inside.trans (List.prefix_append _ _))
  intro spelling isSpelling isFront
  have short := length_le_of_noSpace isFront (spelling_noSpaces spelling isSpelling) (by decide)
  have inText := List.prefix_of_prefix_length_le isFront (List.prefix_append _ _) short
  exact inText.trans (List.prefix_append _ _)

end ShaderReflection.Wgsl.Lexeme

namespace ShaderReflection.Wgsl

open ShaderReflection.Grammar ShaderReflection.Text Lexeme

variable {states : List Nat} {position : Position} {front row rest old new : List Char}
  {terminals : List (Terminal × Token)}

/-! ## Fronts -/

/-- Where an operator is read, a comment may seem to begin, but nowhere else. -/
theorem notOpens_of_read {state : Nat} {letter : Terminal} {text word : List Char}
    (reads : (language.known state).read text = some ⟨some letter, word⟩)
    (isOther : letter ≠ .binaryOperator) : ¬ Opens text := by
  rintro (isLine | ⟨tail, rfl⟩)
  · exact notComment_of_read reads isLine
  · exact isOther (read_at_mark reads).1

/-- A slash alone is no trivia. -/
theorem Skipped.ne_slash (skipped : Skipped row rest) : row ≠ ['/'] := by
  cases skipped with
  | nil => nofun
  | @cons piece row rest kind isText ends further =>
      cases kind with
      | space =>
          rcases Texts.mem_several_one.mp isText with ⟨isFull, areSpaces⟩
          rcases List.exists_cons_of_ne_nil isFull with ⟨first, others, rfl⟩
          rintro isSlash
          obtain rfl := (List.cons.inj isSlash).1
          cases areSpaces '/' List.mem_cons_self
      | lineComment =>
          rcases mem_lineComment.mp isText with ⟨inner, -, rfl⟩
          simp
      | blockComment =>
          rcases isText with ⟨inner, rfl, -⟩
          simp

/-- A text of a body ends in front of a brace or of both marks of a comment. -/
structure Halts (text rest : List Char) : Prop where
  ne_nil : text ≠ []
  notOpens : text = ['/'] → ¬ Opens (text ++ rest)

/-- A token other than an operator ends the text of a body. -/
theorem halts_of_read {state : Nat} {letter : Terminal} {between word behind rest : List Char}
    (reads : (language.known state).read (word ++ (behind ++ rest)) = some ⟨some letter, word⟩)
    (isOther : letter ≠ .binaryOperator) : Halts (between ++ (word ++ behind)) rest := by
  have isFull : word ≠ [] := ((Language.known_honest lexicon_honest state).isPrefix reads).2
  refine ⟨by simp [isFull], ?_⟩
  intro isSlash
  rcases List.append_eq_singleton_iff.mp isSlash with ⟨isTouching, -⟩ | ⟨-, isEmpty⟩
  · rw [isTouching, List.nil_append, List.append_assoc]
    exact notOpens_of_read reads isOther
  · exact absurd (List.append_eq_nil_iff.mp isEmpty).1 isFull

/-- What has been read behind the text of a body ends it. -/
theorem Reads.halts (reads : Reads states position front terminals (row ++ old))
    (braced : ∀ next ∈ terminals.head?,
      next.1 ∈ [Terminal.bodyText, .leftBrace, .rightBrace])
    (ends : terminals = [] → Halts row old) : Halts (front ++ row) old := by
  cases reads with
  | nil => exact ends rfl
  | @cons state _ _ between word front _ letter terminals _ reads _ =>
      have isOther : letter ≠ .binaryOperator := by
        have isKnown : letter ∈ [Terminal.bodyText, .leftBrace, .rightBrace] := braced _ rfl
        rintro rfl
        simp at isKnown
      rw [List.append_assoc, List.append_assoc]
      rw [← List.append_assoc front] at reads
      exact halts_of_read reads isOther

/-- The tokens of a front are read alike if a line feed and other text take the place of the rest.
If the last token is the text of a body, something that ends it has to stand behind it. -/
theorem Reads.before_lineFeed (reads : Reads states position front terminals (row ++ old))
    (noEnd : ¬ ['*', '/'] <:+: new)
    (braced : terminals.IsChain fun left right =>
      left.1 = .bodyText → right.1 ∈ [Terminal.bodyText, .leftBrace, .rightBrace])
    (ends : ∀ last ∈ terminals.getLast?, last.1 = .bodyText → Halts row old) :
    Reads states position front terminals (row ++ '\n' :: new) := by
  generalize isBehind : row ++ old = behind at reads
  induction reads with
  | nil => exact .nil
  | @cons state states position between word front behind letter terminals skipped reads further
      induction =>
      subst isBehind
      have isFull := ((Language.known_honest lexicon_honest state).isPrefix reads).2
      rcases List.isChain_cons.mp braced with ⟨nextBraced, othersBraced⟩
      refine .cons (skipped.congr ?_) ?_ (induction othersBraced (fun last isLast =>
        ends last (mem_getLast?_cons isLast)) rfl)
      · rw [List.head?_append_of_ne_nil _ isFull, List.head?_append_of_ne_nil _ isFull]
      · have isWhole : ∀ tail,
            word ++ (front ++ (row ++ tail)) = word ++ (front ++ row) ++ tail := by
          simp
        rw [isWhole] at reads ⊢
        refine read_before_lineFeed (parser_coherent state) reads (List.prefix_append _ _) noEnd ?_
        rintro rfl
        have halts := further.halts (fun next isNext => nextBraced next isNext rfl) (by
          rintro rfl
          exact ends _ rfl rfl)
        have isBody := bodyText_of_read reads
        rw [List.append_assoc] at isBody ⊢
        exact bodyText_congr isBody halts.ne_nil halts.notOpens

end ShaderReflection.Wgsl

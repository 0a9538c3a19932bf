import ShaderReflection.Proofs.Wgsl.Cutting
import ShaderReflection.Proofs.Wgsl.Trivia

/-!
# White space behind a lexeme

White space ends every lexeme but strings, bodies and comments. So a lexeme is read alike whether
nothing or white space comes behind the text that it is read from (`read_spaced`), and trivia is
skipped in whatever state it is met (`read_trivia`).
-/

namespace ShaderReflection.Wgsl.Lexeme

open ShaderReflection.Grammar ShaderReflection.Text Texts Computability Lexicon

variable {text word rest : List Char} {char : Char} {accepted : Terminal → Bool}
  {letter : Terminal}

/-! ## Characters of lexemes -/

/-- Characters that stand between lexemes, or begin what does. -/
def breaks : List Char := [' ', '\t', '\x0c', '\r', '\n', '/']

def isUnbroken (char : Char) : Bool := !breaks.contains char

/-- The texts of a set are written without breaks. -/
def Unbroken (texts : Texts) : Prop := ∀ word ∈ texts, ∀ char ∈ word, isUnbroken char = true

/-- The texts of a set are written with characters of a class. -/
def Over (isMember : Char → Bool) (texts : Texts) : Prop :=
  ∀ word ∈ texts, ∀ char ∈ word, isMember char = true

section Over

variable {isMember : Char → Bool}

theorem Over.mul {left right : Texts} (leftOver : Over isMember left)
    (rightOver : Over isMember right) : Over isMember (left * right) := by
  intro word isText
  rcases Language.mem_mul.mp isText with ⟨front, isFront, back, isBack, rfl⟩
  exact List.forall_mem_append.mpr ⟨leftOver front isFront, rightOver back isBack⟩

theorem Over.add {left right : Texts} (leftOver : Over isMember left)
    (rightOver : Over isMember right) : Over isMember (left + right) := by
  rintro word (isLeft | isRight)
  · exact leftOver word isLeft
  · exact rightOver word isRight

theorem Over.maybe {texts : Texts} (inClass : Over isMember texts) :
    Over isMember (maybe texts) := by
  rintro word (rfl | isText)
  · simp
  · exact inClass word isText

theorem Over.star {texts : Texts} (inClass : Over isMember texts) : Over isMember (texts∗) := by
  intro word isText
  rcases Language.mem_kstar.mp isText with ⟨pieces, rfl, arePieces⟩
  intro char isChar
  rcases List.mem_flatten.mp isChar with ⟨piece, isPiece, inPiece⟩
  exact inClass piece (arePieces piece isPiece) char inPiece

theorem Over.several {texts : Texts} (inClass : Over isMember texts) :
    Over isMember (several texts) :=
  inClass.mul inClass.star

theorem over_exactly (isPlain : isMember char = true) : Over isMember (exactly char) := by
  rintro word rfl
  simpa using isPlain

end Over

/-- Characters that end a word or a number: breaks, and the end of a list. -/
def isPlain (char : Char) : Bool := !('>' :: breaks).contains char

theorem over_one {isMember : Char → Bool} (apart : ('>' :: breaks).all (!isMember ·) = true) :
    Over isPlain (one isMember) := by
  rintro word ⟨char, isChar, rfl⟩ other isOther
  rw [List.mem_singleton.mp isOther, isPlain, contains_eq_false isChar apart]
  rfl

theorem over_digits : Over isPlain (several digit) := (over_one (by decide)).several

theorem over_decimal : Over isPlain Texts.decimal := by
  intro word isText
  have areDigits := isDigit_of_mem_decimal isText
  intro char isChar
  rw [isPlain, contains_eq_false (areDigits char isChar) (by decide)]
  rfl

theorem over_identifier : Over isPlain (Terminal.texts .identifier) :=
  (over_one (by decide)).mul (over_one (by decide)).star

theorem over_int : Over isPlain (Terminal.texts .intLiteral) := by
  apply Over.mul _ (over_one (by decide)).maybe
  apply Over.add _ over_decimal
  exact ((over_exactly (by decide)).mul (over_one (by decide))).mul (over_one (by decide)).several

theorem over_exponent : Over isPlain Texts.exponent :=
  ((over_one (by decide)).mul (over_one (by decide)).maybe).mul over_digits

theorem over_float : Over isPlain (Terminal.texts .floatLiteral) := by
  have point : Over isPlain (exactly '.') := over_exactly (by decide)
  have suffix : Over isPlain floatSuffix := over_one (by decide)
  have fraction : Over isPlain Texts.fractional :=
    (((over_digits.mul point).mul (over_one (by decide)).star).add
      (point.mul over_digits)).mul over_exponent.maybe |>.add (over_digits.mul over_exponent)
  exact (fraction.mul suffix.maybe).add (over_decimal.mul suffix)

theorem Over.unbroken {texts : Texts} (inClass : Over isPlain texts) : Unbroken texts := by
  intro word isText char isChar
  have plain := inClass word isText char isChar
  rw [isPlain, List.contains_cons, Bool.not_or, Bool.and_eq_true] at plain
  exact plain.2

/-- White space is in strings and bodies only. -/
theorem noSpace_of_mem_texts (isText : word ∈ letter.texts)
    (isOther : letter ∉ [Terminal.stringLiteral, .bodyText]) :
    ∀ char ∈ word, isSpace char = false := by
  have unbroken : ∀ {texts : Texts}, Unbroken texts → word ∈ texts →
      ∀ char ∈ word, isSpace char = false := by
    intro texts unbroken isText char isChar
    have notListed := unbroken word isText char isChar
    simp [isUnbroken, breaks] at notListed
    simp [isSpace, notListed]
  have binary : ∀ word ∈ binaryOperators.map String.toList,
      word.all (!isSpace ·) = true := by
    decide
  have unary : ∀ word ∈ Texts.unaryOperators.map String.toList,
      word.all (!isSpace ·) = true := by
    decide
  cases letter
  case floatLiteral => exact unbroken over_float.unbroken isText
  case intLiteral => exact unbroken over_int.unbroken isText
  case identifier => exact unbroken over_identifier.unbroken isText
  case stringLiteral => simp at isOther
  case bodyText => simp at isOther
  case binaryOperator => exact noSpace_of_all (binary word isText)
  case unaryOperator => exact noSpace_of_all (unary word isText)
  all_goals exact spelling_noSpaces ⟨word, _⟩ isText

/-- A slash ends only operators and bodies. -/
theorem getLast?_of_mem_texts (isText : word ∈ letter.texts) (isSlash : word.getLast? = some '/') :
    letter = .bodyText ∨ letter = .binaryOperator ∧ word = ['/'] := by
  have unbroken : ∀ {texts : Texts}, Unbroken texts → word ∉ texts := by
    intro texts unbroken isText
    cases unbroken word isText '/' (List.mem_of_getLast? isSlash)
  have binary : ∀ word ∈ binaryOperators.map String.toList, word.getLast? = some '/' →
      word = ['/'] := by
    decide
  have unary : ∀ word ∈ Texts.unaryOperators.map String.toList, word.getLast? ≠ some '/' := by
    decide
  have spelled : ∀ spelling ∈ spellings, spelling.text.getLast? ≠ some '/' := by
    decide +kernel
  cases letter
  case floatLiteral => exact absurd isText (unbroken over_float.unbroken)
  case intLiteral => exact absurd isText (unbroken over_int.unbroken)
  case identifier => exact absurd isText (unbroken over_identifier.unbroken)
  case stringLiteral =>
    rcases Language.mem_mul.mp isText with ⟨front, -, _, rfl, rfl⟩
    simp at isSlash
  case bodyText => exact .inl rfl
  case binaryOperator => exact .inr ⟨rfl, binary word isText isSlash⟩
  case unaryOperator => exact absurd isSlash (unary word isText)
  all_goals exact absurd isSlash (spelled ⟨word, _⟩ isText)

/-! ## Trivia -/

theorem mem_spaces (isChar : isSpace char = true) : char ∈ [' ', '\t', '\x0c', '\r', '\n'] := by
  simpa [isSpace, or_assoc] using isChar

/-- No spelling begins like trivia. -/
theorem unspelled_trivia (begins : isSpace char = true ∨ char = '/') :
    ∀ spelling ∈ spellings, spelling.text ≠ char :: text := by
  rintro spelling isSpelling isText
  have isHead : char ∈ spelling.text.head? := by
    rw [isText]
    rfl
  rcases starts_plain _ (mem_starts isSpelling isHead) with ⟨-, -, noSlash, noSpace, -⟩
  rcases begins with isSpace | isSlash
  · exact Bool.false_ne_true (noSpace.symm.trans isSpace)
  · exact noSlash isSlash

/-- A comment is read before anything else that begins with a slash. -/
theorem silent_comment {mark : Char} (isMark : mark = '/' ∨ mark = '*') :
    Silent accepted (patterns.take 5) ('/' :: mark :: text) := by
  have noBody : bodyText ('/' :: mark :: text) = none := by
    rcases isMark with rfl | rfl <;> simp [bodyText, bodyRun]
  have noFloat : floatLiteral ('/' :: mark :: text) = none := floatLiteral_eq_none rfl
  have noInt : intLiteral ('/' :: mark :: text) = none := intLiteral_eq_none rfl
  have noWord : Lexeme.word ('/' :: mark :: text) = none := word_eq_none rfl
  have noString : stringLiteral ('/' :: mark :: text) = none := stringLiteral_eq_none rfl
  refine silent_cons (fun _ => noFloat) ?_
  refine silent_cons (fun _ => noBody) ?_
  refine silent_cons (fun _ => noInt) ?_
  refine silent_cons (fun _ => noWord) ?_
  refine silent_cons (fun _ => noString) ?_
  exact silent_nil

theorem commentRest_append (noEnd : ¬ ['*', '/'] <:+: word) :
    commentRest (word ++ '*' :: '/' :: rest) = some (word ++ ['*', '/']) := by
  induction word with
  | nil => rfl
  | cons first word induction =>
      have later := induction fun isInfix => noEnd (List.infix_cons isInfix)
      rw [List.cons_append, commentRest, later]
      · rfl
      · intro tail isStar isNext
        cases word with
        | nil =>
            rw [List.nil_append, List.cons.injEq] at isNext
            cases isNext.1
        | cons next word =>
            rw [List.cons_append, List.cons.injEq] at isNext
            exact noEnd ⟨[], word, by rw [isStar, isNext.1]; rfl⟩

/-- Trivia is skipped wherever it is met. -/
theorem read_trivia {kind : Trivia} (isText : word ∈ kind.texts) (ends : kind.Ends rest) :
    (lexicon.restrict accepted).read (word ++ rest) = some ⟨none, word⟩ := by
  cases kind with
  | space =>
      rcases mem_several_one.mp isText with ⟨isFull, areSpaces⟩
      rcases List.exists_cons_of_ne_nil isFull with ⟨first, others, rfl⟩
      have isFirst := areSpaces first List.mem_cons_self
      have plain : [' ', '\t', '\x0c', '\r', '\n'].all (fun char =>
          isFloatStart char = false ∧ isBlank char = true ∧ char.isDigit = false ∧
            isWordStart char = false ∧ (char == '"') = false ∧ char ≠ '/') = true := by
        decide
      rcases of_decide_eq_true (List.all_eq_true.mp plain first (mem_spaces isFirst)) with
        ⟨noFloat, isBlank, noDigit, noWord, noQuote, noSlash⟩
      have silent : Silent accepted (patterns.take 7) (first :: (others ++ rest)) := by
        apply silent_comments (floatLiteral_eq_none noFloat) _ noDigit _ noQuote
          fun isSlash => absurd isSlash noSlash
        · intro _
          rw [bodyText, if_pos isBlank]
        · intro _
          exact word_eq_none noWord
      have reads : space (first :: others ++ rest) = some (first :: others) := by
        rw [space, takeWhile_append areSpaces ends]
      exact read_restrict_of_unspelled _ (split_patterns 7 rfl) silent rfl reads
        fun spelling isSpelling _ => unspelled_trivia (.inl isFirst) spelling isSpelling
  | lineComment =>
      rcases Language.mem_mul.mp isText with ⟨_, ⟨_, rfl, _, rfl, rfl⟩, line, isLine, rfl⟩
      have noBlock : blockComment ('/' :: '/' :: (line ++ rest)) = none := rfl
      have silent : Silent accepted (patterns.take 6) ('/' :: '/' :: (line ++ rest)) :=
        silent_append (silent_comment (.inl rfl)) (silent_cons (fun _ => noBlock) silent_nil)
      have reads : lineComment ('/' :: '/' :: (line ++ rest)) = some ('/' :: '/' :: line) := by
        rw [lineComment, takeWhile_append (mem_star_one.mp isLine) ends]
      exact read_restrict_of_unspelled _ (split_patterns 6 rfl) silent rfl reads
        fun spelling isSpelling _ => unspelled_trivia (.inr rfl) spelling isSpelling
  | blockComment =>
      rcases isText with ⟨inner, rfl, noEnd⟩
      have reads : blockComment ('/' :: '*' :: inner ++ ['*', '/'] ++ rest) =
          some ('/' :: '*' :: inner ++ ['*', '/']) := by
        simp only [List.cons_append, List.append_assoc, List.nil_append, blockComment,
          commentRest_append noEnd, Option.map_some]
      refine read_restrict_of_unspelled _ (split_patterns 5 rfl) ?_ rfl reads
        fun spelling isSpelling _ => unspelled_trivia (.inr rfl) spelling isSpelling
      simp only [List.cons_append]
      exact silent_comment (.inr rfl)

/-! ## Lexemes -/

/-- A character that is not in a lexeme ends it. -/
theorem length_le_of_notMem {gap : Char} (inFront : word <+: text ++ gap :: rest)
    (notMem : gap ∉ word) : word.length ≤ text.length := by
  apply Nat.le_of_not_lt
  intro beyond
  rcases List.prefix_of_prefix_length_le (List.prefix_append text (gap :: rest)) inFront
    beyond.le with ⟨more, rfl⟩
  cases more with
  | nil => simp at beyond
  | cons next more =>
      rw [List.prefix_append_right_inj, List.cons_prefix_cons] at inFront
      exact notMem (by simp [inFront.1])

/-- White space ends a lexeme that has none. -/
theorem length_le_of_noSpace {gap : Char} (inFront : word <+: text ++ gap :: rest)
    (noSpace : ∀ char ∈ word, isSpace char = false) (isSpaced : isSpace gap = true) :
    word.length ≤ text.length := by
  apply length_le_of_notMem inFront
  intro isMember
  have notSpace := noSpace gap isMember
  rw [isSpaced] at notSpace
  cases notSpace

/-- A body that ends inside of a text is the same whatever comes behind the text. -/
theorem bodyRun_append_of_length_lt (ends : (bodyRun text).length < text.length) :
    bodyRun (text ++ rest) = bodyRun text := by
  fun_induction bodyRun text with
  | case1 => simp at ends
  | case2 text => simp only [List.cons_append, bodyRun]
  | case3 text => simp only [List.cons_append, bodyRun]
  | case4 char text notLine notBlock isBrace =>
      rcases isBrace with rfl | rfl <;> simp [bodyRun]
  | case5 char text notLine notBlock notBrace induction =>
      simp only [List.length_cons, Nat.add_lt_add_iff_right] at ends
      cases text with
      | nil => simp at ends
      | cons next text =>
          rw [List.cons_append, bodyRun.eq_4, if_neg notBrace, induction ends]
          · intro tail isSlash isNext
            rw [List.cons_append, List.cons.injEq] at isNext
            exact notLine text isSlash (by rw [isNext.1])
          · intro tail isSlash isNext
            rw [List.cons_append, List.cons.injEq] at isNext
            exact notBlock text isSlash (by rw [isNext.1])

theorem bodyText_append (isFull : text ≠ []) (notWhole : bodyText text ≠ some text) :
    bodyText (text ++ rest) = bodyText text := by
  cases text with
  | nil => exact absurd rfl isFull
  | cons char text =>
      rw [List.cons_append]
      rw [bodyText] at notWhole ⊢
      rw [bodyText]
      split
      · rfl
      · rename_i notBlank
        rw [if_neg notBlank] at notWhole
        have ends : (bodyRun (char :: text)).length < (char :: text).length := by
          apply Nat.lt_of_le_of_ne (bodyRun_isPrefix _).length_le
          intro sameLength
          rw [(bodyRun_isPrefix _).eq_of_length sameLength] at notWhole
          exact notWhole rfl
        have same : bodyRun (char :: text ++ rest) = _ := bodyRun_append_of_length_lt ends
        rw [List.cons_append] at same
        rw [same]

theorem accepted_of_read
    (reads : (lexicon.restrict accepted).read text = some ⟨some letter, word⟩) :
    accepted letter = true := by
  rcases read_eq_some reads with isSpelling | ⟨pattern, isPattern, isLetter, -⟩
  · exact (List.mem_filter.mp isSpelling).2
  · have isKnown := (List.mem_filter.mp isPattern).2
    rw [isLetter] at isKnown
    exact isKnown

/-- Where bodies are acceptable, what could be the text of a body is read as one. -/
theorem eq_bodyText_of_read (coherent : Coherent accepted) (isAccepted : accepted .bodyText = true)
    (reads : (lexicon.restrict accepted).read text = some ⟨some letter, word⟩)
    (isBody : bodyText text = some word) : letter = .bodyText := by
  have noBrace := (bodyText_sound isBody).2.noBrace
  have isText := mem_texts_of_read reads
  have isKnown := coherent.body isAccepted letter (accepted_of_read reads)
  simp only [List.mem_cons, List.not_mem_nil, or_false] at isKnown
  rcases isKnown with rfl | rfl | rfl
  · rfl
  · cases eq_of_mem_texts_leftBrace isText
    exact absurd rfl (noBrace '\x7b' List.mem_cons_self).1
  · cases eq_of_mem_texts_rightBrace isText
    exact absurd rfl (noBrace '\x7d' List.mem_cons_self).2

/-- Only strings and bodies begin with a quote. -/
theorem mem_of_quote (isText : word ∈ letter.texts) (isQuote : '"' ∈ word.head?) :
    letter ∈ [Terminal.stringLiteral, .bodyText] := by
  have otherwise : ∀ {texts : Texts} {isFirst : Char → Bool}, BeginsWith texts isFirst →
      isFirst '"' = false → word ∉ texts := by
    intro texts isFirst begins notFirst isText
    rcases begins word isText with ⟨char, isHead, isClass⟩
    cases Option.some.inj (isHead.symm.trans isQuote)
    exact Bool.false_ne_true (notFirst.symm.trans isClass)
  cases letter
  case floatLiteral => exact absurd isText (otherwise beginsWith_float rfl)
  case intLiteral => exact absurd isText (otherwise beginsWith_int rfl)
  case identifier => exact absurd isText (otherwise beginsWith_identifier rfl)
  case stringLiteral => decide
  case bodyText => decide
  case binaryOperator => exact absurd isText (otherwise beginsWith_binary rfl)
  case unaryOperator => exact absurd isText (otherwise beginsWith_unary rfl)
  all_goals cases (starts_plain _ (mem_starts isText isQuote)).2.1

/-- Where strings are acceptable, a quote begins nothing else. -/
theorem stringLiteral_of_read (coherent : Coherent accepted)
    (isAccepted : accepted .stringLiteral = true)
    (reads : (lexicon.restrict accepted).read ('"' :: text) = some ⟨some letter, word⟩) :
    stringLiteral ('"' :: text) ≠ none := by
  rcases (lexicon_honest.restrict accepted).isPrefix reads with ⟨inFront, isFull⟩
  have isText := mem_texts_of_read reads
  have isQuote : '"' ∈ word.head? := by
    rcases List.exists_cons_of_ne_nil isFull with ⟨first, others, rfl⟩
    rw [(List.cons_prefix_cons.mp inFront).1]
    rfl
  have isLetter := mem_of_quote isText isQuote
  simp only [List.mem_cons, List.not_mem_nil, or_false] at isLetter
  rcases isLetter with rfl | rfl
  · rcases inFront with ⟨others, isWhole⟩
    rw [← isWhole, stringLiteral_complete isText]
    exact Option.some_ne_none _
  · have noBody := coherent.noBody isAccepted (by decide)
    exact absurd (noBody.symm.trans (accepted_of_read reads)) Bool.false_ne_true

/-- A string is read whatever stands behind it. -/
theorem stringLiteral_of_inside {old new : List Char} (inside : word <+: text)
    (reads : stringLiteral (text ++ old) = some word) :
    stringLiteral (text ++ new) = some word := by
  rcases inside with ⟨tail, rfl⟩
  rw [List.append_assoc]
  exact stringLiteral_complete (stringLiteral_sound reads).2

theorem stringLiteral_append (reads : stringLiteral text = some word) :
    stringLiteral (text ++ rest) = some word := by
  rw [← List.append_nil text] at reads
  exact stringLiteral_of_inside (List.append_nil text ▸ (stringLiteral_sound reads).1) reads

/-- A pattern does the same for two texts, as far as it takes part in reading a lexeme. -/
structure Agrees (letter : Terminal) (word text other : List Char) (pattern : Pattern Terminal) :
    Prop where
  silent : pattern.read text = none → pattern.read other = none
  keeps : pattern.read text = some word →
    (pattern.terminal = some letter ∨ ∃ spelling ∈ spellings, spelling.text = word) →
    pattern.read other = some word

theorem agrees_of_eq {pattern : Pattern Terminal} {other : List Char}
    (same : pattern.read other = pattern.read text) : Agrees letter word text other pattern where
  silent := fun isSilent => same.trans isSilent
  keeps := fun isRead _ => same.trans isRead

/-- A lexeme is read alike from two texts for which the patterns do the same. -/
theorem read_of_agrees {other : List Char}
    (reads : (lexicon.restrict accepted).read text = some ⟨some letter, word⟩)
    (agrees : ∀ pattern ∈ (lexicon.restrict accepted).patterns,
      Agrees letter word text other pattern)
    (fronts : ∀ spelling ∈ spellings, spelling.text <+: other → spelling.text <+: text)
    (inFront : word <+: other) :
    (lexicon.restrict accepted).read other = some ⟨some letter, word⟩ := by
  refine read_of_agree reads (fun pattern isPattern => (agrees pattern isPattern).silent) ?_ ?_
    inFront
  · intro pattern isPattern isRead isOwn
    apply (agrees pattern isPattern).keeps isRead
    rcases isOwn with isLetter | ⟨spelling, isSpelling, isText⟩
    · exact .inl isLetter
    · exact .inr ⟨spelling, (List.mem_filter.mp isSpelling).1, isText⟩
  · intro spelling isSpelling
    exact fronts spelling (List.mem_filter.mp isSpelling).1

/-- Trivia takes no part in reading a terminal. -/
theorem agrees_of_trivia {pattern : Pattern Terminal} {other : List Char}
    (isTrivia : pattern.terminal = none)
    (silent : pattern.read text = none → pattern.read other = none)
    (begins : pattern.read text = some word →
      ∃ char others, word = char :: others ∧ (isSpace char = true ∨ char = '/')) :
    Agrees letter word text other pattern where
  silent := silent
  keeps := by
    rintro isRead (isLetter | ⟨spelling, isSpelling, isText⟩)
    · rw [isTrivia] at isLetter
      cases isLetter
    · rcases begins isRead with ⟨char, others, rfl, isBegin⟩
      exact absurd isText (unspelled_trivia isBegin spelling isSpelling)

/-! ## Patterns by their first characters -/

section First

variable {first : Char} {others behind : List Char}

theorem agrees_blockComment
    (silent : blockComment (first :: others) = none → blockComment (first :: behind) = none) :
    Agrees letter word (first :: others) (first :: behind) ⟨none, blockComment⟩ := by
  apply agrees_of_trivia rfl silent
  intro reads
  rcases blockComment_eq_map reads with ⟨tail, inner, -, -, rfl⟩
  exact ⟨'/', _, rfl, .inr rfl⟩

/-- A comment on a line is told by its marks. -/
theorem agrees_lineComment (marks : behind.head? = some '/' → others.head? = some '/') :
    Agrees letter word (first :: others) (first :: behind) ⟨none, lineComment⟩ := by
  apply agrees_of_trivia rfl
  · intro isSilent
    apply Option.eq_none_iff_forall_ne_some.mpr
    intro found reads
    rcases lineComment_eq_takeWhile reads with ⟨tail, isText, -⟩
    cases isText
    rcases List.head?_eq_some_iff.mp (marks rfl) with ⟨line, rfl⟩
    cases isSilent
  · intro reads
    rcases lineComment_eq_takeWhile reads with ⟨tail, -, rfl⟩
    exact ⟨'/', _, rfl, .inr rfl⟩

theorem agrees_space : Agrees letter word (first :: others) (first :: behind) ⟨none, space⟩ := by
  have begins : ∀ {word}, space (first :: others) = some word →
      ∃ char others, word = char :: others ∧ (isSpace char = true ∨ char = '/') := by
    intro word reads
    rcases space_sound reads with ⟨-, -, isText, -⟩
    rcases mem_several_one.mp isText with ⟨isFull, areSpaces⟩
    rcases List.exists_cons_of_ne_nil isFull with ⟨char, others, rfl⟩
    exact ⟨char, others, rfl, .inl (areSpaces char List.mem_cons_self)⟩
  apply agrees_of_trivia rfl _ begins
  intro isSilent
  apply space_eq_none
  cases isFirst : isSpace first with
  | false => rfl
  | true =>
      have run : space (first :: others) = some (first :: others.takeWhile isSpace) := by
        rw [space, List.takeWhile_cons, isFirst]
        rfl
      exact absurd (run.symm.trans isSilent) (Option.some_ne_none _)

theorem agrees_stringLiteral (coherent : Coherent accepted)
    (isAccepted : accepted .stringLiteral = true)
    (reads : (lexicon.restrict accepted).read (first :: others) = some ⟨some letter, word⟩)
    (keeps : stringLiteral (first :: others) = some word →
      stringLiteral (first :: behind) = some word) :
    Agrees letter word (first :: others) (first :: behind)
      ⟨some .stringLiteral, stringLiteral⟩ where
  silent := by
    intro isSilent
    by_cases isQuote : first = '"'
    · subst isQuote
      exact absurd isSilent (stringLiteral_of_read coherent isAccepted reads)
    · have noQuote : (first == '"') = false := by simpa using isQuote
      exact stringLiteral_eq_none noQuote
  keeps := fun isRead _ => keeps isRead

end First

section Gap

variable {gap first : Char} {others : List Char}

theorem agrees_plain {own : Terminal} {read : List Char → Option (List Char)}
    (isOther : own ∉ [Terminal.stringLiteral, .bodyText])
    (sound : ∀ {text word}, read text = some word → word <+: text ∧ word ∈ own.texts)
    (cuts : CutsAt text (gap :: rest) read) (isSpaced : isSpace gap = true) :
    Agrees letter word text (text ++ gap :: rest) ⟨some own, read⟩ := by
  apply agrees_of_eq
  refine (cuts ?_).symm
  intro found isFound
  rcases sound isFound with ⟨inFront, isText⟩
  exact length_le_of_noSpace inFront (noSpace_of_mem_texts isText isOther) isSpaced

/-- White space behind a text opens no comment and closes none that is not open. -/
theorem blockComment_spaced (isSpaced : isSpace gap = true)
    (noComment : ¬ ['/', '*'] <+: first :: others) :
    blockComment (first :: (others ++ gap :: rest)) = none := by
  apply Option.eq_none_iff_forall_ne_some.mpr
  intro found reads
  rcases blockComment_eq_map reads with ⟨tail, inner, isText, -⟩
  cases others with
  | nil =>
      cases isText
      cases isSpaced
  | cons next others =>
      cases isText
      exact noComment (List.prefix_append ['/', '*'] others)

theorem head?_spaced {mark : Char} (isSpaced : isSpace gap = true) (notSpace : isSpace mark = false)
    (isMark : (others ++ gap :: rest).head? = some mark) : others.head? = some mark := by
  cases others with
  | nil =>
      cases isMark
      exact absurd (notSpace.symm.trans isSpaced) Bool.false_ne_true
  | cons next others => exact isMark

theorem agrees_bodyText (coherent : Coherent accepted) (isAccepted : accepted .bodyText = true)
    (reads : (lexicon.restrict accepted).read (first :: others) = some ⟨some letter, word⟩)
    (ends : letter = .bodyText → word ≠ first :: others) :
    Agrees letter word (first :: others) (first :: others ++ gap :: rest)
      ⟨some .bodyText, bodyText⟩ := by
  cases isRead : bodyText (first :: others) with
  | none =>
      apply agrees_of_eq
      apply bodyText_append (List.cons_ne_nil _ _)
      rw [isRead]
      nofun
  | some found =>
      refine ⟨fun isSilent => ?_, fun isWord _ => ?_⟩
      · exact absurd (isRead.symm.trans isSilent) (Option.some_ne_none _)
      · have isBody := eq_bodyText_of_read coherent isAccepted reads isWord
        refine (bodyText_append (List.cons_ne_nil _ _) ?_).trans isWord
        intro isWhole
        exact ends isBody (Option.some.inj (isWord.symm.trans isWhole))

/-- A lexeme is read alike if white space comes behind the text that it is read from. Two cases
are left out: a comment that is open at the front of the text may be closed behind the white space,
and the text of a body goes on over it. -/
theorem read_spaced (coherent : Coherent accepted)
    (reads : (lexicon.restrict accepted).read text = some ⟨some letter, word⟩)
    (noComment : ¬ ['/', '*'] <+: text) (ends : letter = .bodyText → word ≠ text)
    (isSpaced : isSpace gap = true) :
    (lexicon.restrict accepted).read (text ++ gap :: rest) = some ⟨some letter, word⟩ := by
  rcases (lexicon_honest.restrict accepted).isPrefix reads with ⟨inFront, isFull⟩
  rcases List.exists_cons_of_ne_nil (inFront.ne_nil isFull) with ⟨first, others, rfl⟩
  have agrees : ∀ pattern ∈ (lexicon.restrict accepted).patterns,
      Agrees letter word (first :: others) (first :: others ++ gap :: rest) pattern := by
    intro pattern isPattern
    rcases List.mem_filter.mp isPattern with ⟨inPatterns, isKnown⟩
    simp only [lexicon, patterns, List.mem_cons, List.not_mem_nil, or_false] at inPatterns
    rcases inPatterns with rfl | rfl | rfl | rfl | rfl | rfl | rfl | rfl | rfl | rfl
    · exact agrees_plain (by decide) floatLiteral_sound cutsAt_floatLiteral isSpaced
    · exact agrees_bodyText coherent isKnown reads ends
    · exact agrees_plain (by decide) intLiteral_sound cutsAt_intLiteral isSpaced
    · exact agrees_plain (by decide) word_sound (cutsAt_word first) isSpaced
    · exact agrees_stringLiteral coherent isKnown reads fun isRead => stringLiteral_append isRead
    · exact agrees_blockComment fun _ => blockComment_spaced isSpaced noComment
    · exact agrees_lineComment (head?_spaced isSpaced (by decide))
    · exact agrees_space
    · exact agrees_plain (by decide) binaryOperator_sound (cutsAt_binaryOperator first) isSpaced
    · exact agrees_plain (by decide) unaryOperator_sound (cutsAt_unaryOperator first) isSpaced
  refine read_of_agrees reads agrees ?_ (inFront.trans (List.prefix_append _ _))
  intro spelling isSpelling isFront
  have short := length_le_of_noSpace isFront (spelling_noSpaces spelling isSpelling) isSpaced
  exact List.prefix_of_prefix_length_le isFront (List.prefix_append _ _) short

end Gap

end ShaderReflection.Wgsl.Lexeme

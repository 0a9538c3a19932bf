import ShaderReflection.Proofs.Wgsl.Lexing

/-!
# What is read where

Which terminal a text is read as depends on the terminals that are acceptable. In sets of
acceptable terminals that keep certain terminals apart (`Coherent`) every text of an acceptable
terminal is read as that terminal, with one exception (`read_of_mem_texts`, `read_greater`).
-/

namespace ShaderReflection.Wgsl.Lexeme

open ShaderReflection.Grammar ShaderReflection.Text Texts Computability Lexicon

variable {text word rest : List Char} {char : Char}

/-! ## First characters -/

/-- The texts of a set begin with a character of a class. -/
def BeginsWith (texts : Texts) (isFirst : Char → Bool) : Prop :=
  ∀ word ∈ texts, ∃ char ∈ word.head?, isFirst char = true

theorem beginsWith_identifier : BeginsWith (Terminal.texts .identifier) isWordStart := by
  intro word isText
  rcases Language.mem_mul.mp isText with ⟨_, ⟨char, isStart, rfl⟩, others, -, rfl⟩
  exact ⟨char, rfl, isStart⟩

theorem beginsWith_decimal : BeginsWith Texts.decimal Char.isDigit := by
  intro word isText
  cases word with
  | nil => exact absurd isText nil_notMem_decimal
  | cons char word => exact ⟨char, rfl, isDigit_of_mem_decimal isText char List.mem_cons_self⟩

theorem BeginsWith.mul {left right : Texts} {isFirst : Char → Bool}
    (begins : BeginsWith left isFirst) : BeginsWith (left * right) isFirst := by
  intro word isText
  rcases Language.mem_mul.mp isText with ⟨front, isFront, back, -, rfl⟩
  rcases begins front isFront with ⟨char, isHead, isClass⟩
  refine ⟨char, ?_, isClass⟩
  rw [List.head?_append, isHead]
  rfl

theorem BeginsWith.add {left right : Texts} {isFirst : Char → Bool}
    (beginsLeft : BeginsWith left isFirst) (beginsRight : BeginsWith right isFirst) :
    BeginsWith (left + right) isFirst := by
  rintro word (isLeft | isRight)
  · exact beginsLeft word isLeft
  · exact beginsRight word isRight

theorem BeginsWith.weaken {texts : Texts} {isFirst isMore : Char → Bool}
    (begins : BeginsWith texts isFirst)
    (more : ∀ char, isFirst char = true → isMore char = true) : BeginsWith texts isMore := by
  intro word isText
  rcases begins word isText with ⟨char, isHead, isClass⟩
  exact ⟨char, isHead, more char isClass⟩

theorem beginsWith_one {isMember : Char → Bool} : BeginsWith (one isMember) isMember := by
  rintro word ⟨char, isMember, rfl⟩
  exact ⟨char, rfl, isMember⟩

theorem beginsWith_exactly : BeginsWith (exactly char) (· == char) := by
  rintro word rfl
  exact ⟨char, rfl, by simp⟩

theorem beginsWith_int : BeginsWith (Terminal.texts .intLiteral) Char.isDigit := by
  apply BeginsWith.mul
  apply BeginsWith.add _ beginsWith_decimal
  apply BeginsWith.mul
  apply BeginsWith.mul
  apply beginsWith_exactly.weaken
  intro char isZero
  rw [beq_iff_eq.mp isZero]
  rfl

def isFloatStart (char : Char) : Bool := char.isDigit || char == '.'

theorem beginsWith_float : BeginsWith (Terminal.texts .floatLiteral) isFloatStart := by
  have digits : ∀ char : Char, char.isDigit = true → isFloatStart char = true := by
    intro char isDigit
    rw [isFloatStart, isDigit]
    rfl
  have whole : BeginsWith (several digit) isFloatStart := (beginsWith_one.weaken digits).mul
  have point : BeginsWith (exactly '.') isFloatStart := by
    apply beginsWith_exactly.weaken
    intro char isPoint
    rw [beq_iff_eq.mp isPoint]
    rfl
  apply BeginsWith.add _ (beginsWith_decimal.weaken digits).mul
  apply BeginsWith.mul
  exact (whole.mul.mul.add point.mul).mul.add whole.mul

theorem beginsWith_string : BeginsWith (Terminal.texts .stringLiteral) (· == '"') :=
  beginsWith_exactly.mul.mul

def operatorStarts : List Char :=
  ['&', '|', '=', '!', '<', '>', '+', '-', '*', '/', '%', '^', '~']

theorem beginsWith_binary :
    BeginsWith (Terminal.texts .binaryOperator) (operatorStarts.contains ·) := by
  have all : ∀ word ∈ binaryOperators.map String.toList,
      word.head?.any (operatorStarts.contains ·) = true := by
    decide
  intro word isText
  exact (Option.any_eq_true _ _).mp (all word isText)

theorem beginsWith_unary :
    BeginsWith (Terminal.texts .unaryOperator) (Lexeme.unaryOperators.contains ·) := by
  have all : ∀ word ∈ Texts.unaryOperators.map String.toList,
      word.head?.any (Lexeme.unaryOperators.contains ·) = true := by
    decide
  intro word isText
  exact (Option.any_eq_true _ _).mp (all word isText)

/-- A reader of texts that cannot begin with a character reads nothing there. -/
theorem eq_none_of_beginsWith {read : List Char → Option (List Char)} {texts : Texts}
    {isFirst : Char → Bool} (begins : BeginsWith texts isFirst)
    (sound : ∀ {word}, read (char :: text) = some word → word <+: char :: text ∧ word ∈ texts)
    (notFirst : isFirst char = false) : read (char :: text) = none := by
  cases result : read (char :: text) with
  | none => rfl
  | some word =>
      rcases sound result with ⟨inFront, isText⟩
      rcases begins word isText with ⟨first, isHead, isClass⟩
      cases word with
      | nil => cases isHead
      | cons next word =>
          cases isHead
          rcases List.cons_prefix_cons.mp inFront with ⟨rfl, -⟩
          rw [notFirst] at isClass
          cases isClass

theorem floatLiteral_eq_none (notFirst : isFloatStart char = false) :
    floatLiteral (char :: text) = none :=
  eq_none_of_beginsWith beginsWith_float floatLiteral_sound notFirst

theorem intLiteral_eq_none (notFirst : char.isDigit = false) : intLiteral (char :: text) = none :=
  eq_none_of_beginsWith beginsWith_int intLiteral_sound notFirst

theorem word_eq_none (notFirst : isWordStart char = false) : Lexeme.word (char :: text) = none :=
  eq_none_of_beginsWith beginsWith_identifier word_sound notFirst

theorem stringLiteral_eq_none (notFirst : (char == '"') = false) :
    stringLiteral (char :: text) = none :=
  eq_none_of_beginsWith beginsWith_string stringLiteral_sound notFirst

theorem binaryOperator_eq_none (notFirst : operatorStarts.contains char = false) :
    binaryOperator (char :: text) = none :=
  eq_none_of_beginsWith beginsWith_binary binaryOperator_sound notFirst

theorem unaryOperator_eq_none (notFirst : Lexeme.unaryOperators.contains char = false) :
    unaryOperator (char :: text) = none :=
  eq_none_of_beginsWith beginsWith_unary unaryOperator_sound notFirst

theorem space_eq_none (notFirst : isSpace char = false) : space (char :: text) = none := by
  rw [space, List.takeWhile_cons, notFirst]
  rfl

/-- A comment begins with a slash that is not followed by a space. -/
theorem blockComment_eq_none (noMark : char = '/' → Parted text) :
    blockComment (char :: text) = none := by
  rw [blockComment.eq_def]
  split
  · rename_i isComment
    cases isComment
    cases noMark rfl '*' rfl
  · rfl

theorem lineComment_eq_none (noMark : char = '/' → Parted text) :
    lineComment (char :: text) = none := by
  rw [lineComment.eq_def]
  split
  · rename_i isComment
    cases isComment
    cases noMark rfl '/' rfl
  · rfl

theorem floatLiteral_point (parted : Parted rest) : floatLiteral ('.' :: rest) = none := by
  have noDigits : rest.takeWhile Char.isDigit = [] := by
    rw [← List.nil_append rest, takeWhile_append (by simp) (parted.stops rfl)]
  have noFraction : fractional ('.' :: rest) = [] := by
    simp [fractional, noDigits]
  rw [floatLiteral, noFraction]
  rfl

theorem binaryOperator_equal (parted : Parted rest) : binaryOperator ('=' :: rest) = none := by
  cases rest with
  | nil => rfl
  | cons char rest =>
      rw [parted char rfl]
      rfl

theorem bodyText_brace (isBrace : char = '\x7b' ∨ char = '\x7d') :
    bodyText (char :: rest) = none := by
  have noRun : bodyRun (char :: rest) = [] := by
    rcases isBrace with rfl | rfl
    · simp [bodyRun]
    · simp [bodyRun]
  rw [bodyText, noRun, ite_self]

/-! ## Acceptable terminals -/

/-- Terminals that are written alike are not acceptable in one place, with the exception of `>`. -/
structure Coherent (accepted : Terminal → Bool) : Prop where
  body : accepted .bodyText = true → ∀ letter, accepted letter = true →
    letter ∈ [Terminal.bodyText, .leftBrace, .rightBrace]
  arrow : accepted .arrow = true → ∀ letter, accepted letter = true →
    letter ∈ [Terminal.arrow, .leftBrace]
  operator : accepted .binaryOperator = true →
    accepted .unaryOperator = false ∧ accepted .less = false
  typeName : accepted .typeName = true → accepted .identifier = true

variable {accepted : Terminal → Bool} {letter : Terminal}

theorem Coherent.noBody (coherent : Coherent accepted) (isAccepted : accepted letter = true)
    (isOther : letter ∉ [Terminal.bodyText, .leftBrace, .rightBrace]) :
    accepted .bodyText = false := by
  apply Bool.eq_false_iff.mpr
  intro isBody
  exact isOther (coherent.body isBody letter isAccepted)

/-! ## Silence in front of a pattern -/

theorem isDigit_of_isWordStart (isStart : isWordStart char = true) : char.isDigit = false := by
  apply Bool.eq_false_iff.mpr
  intro isDigit
  have atMost : char.val ≤ '9'.val := of_decide_eq_true ((Bool.and_eq_true _ _).mp isDigit).2
  rcases (Bool.or_eq_true _ _).mp isStart with isLetter | isLine
  · rcases (Bool.or_eq_true _ _).mp isLetter with isUpper | isLower
    · have atLeast : 'A'.val ≤ char.val := (of_decide_eq_true isUpper).1
      exact absurd (UInt32.le_trans atLeast atMost) (by decide)
    · have atLeast : 'a'.val ≤ char.val :=
        of_decide_eq_true ((Bool.and_eq_true _ _).mp isLower).1
      exact absurd (UInt32.le_trans atLeast atMost) (by decide)
  · rw [beq_iff_eq.mp isLine] at isDigit
    cases isDigit

theorem silent_cons {pattern : Pattern Terminal} {others : List (Pattern Terminal)}
    (first : pattern.terminal.all accepted = true → pattern.read text = none)
    (silent : Silent accepted others text) : Silent accepted (pattern :: others) text :=
  List.forall_mem_cons.mpr ⟨first, silent⟩

theorem silent_cons_of_unknown {pattern : Pattern Terminal} {others : List (Pattern Terminal)}
    (unknown : pattern.terminal.all accepted = false) (silent : Silent accepted others text) :
    Silent accepted (pattern :: others) text := by
  apply silent_cons _ silent
  intro isKnown
  rw [unknown] at isKnown
  cases isKnown

theorem silent_nil : Silent accepted [] text := by
  simp [Silent]

theorem silent_append {patterns others : List (Pattern Terminal)}
    (silent : Silent accepted patterns text) (othersSilent : Silent accepted others text) :
    Silent accepted (patterns ++ others) text :=
  List.forall_mem_append.mpr ⟨silent, othersSilent⟩

/-- Where no lexeme with a pattern begins, at most white space and operators are read. -/
theorem silent_comments (noFloat : floatLiteral (char :: rest) = none)
    (noBody : accepted .bodyText = true → bodyText (char :: rest) = none)
    (noDigit : char.isDigit = false)
    (noWord : accepted .identifier = true → Lexeme.word (char :: rest) = none)
    (noQuote : (char == '"') = false) (noMark : char = '/' → Parted rest) :
    Silent accepted (patterns.take 7) (char :: rest) := by
  refine silent_cons (fun _ => noFloat) ?_
  refine silent_cons (fun isKnown => noBody isKnown) ?_
  refine silent_cons (fun _ => intLiteral_eq_none noDigit) ?_
  refine silent_cons (fun isKnown => noWord isKnown) ?_
  refine silent_cons (fun _ => stringLiteral_eq_none noQuote) ?_
  refine silent_cons (fun _ => blockComment_eq_none noMark) ?_
  refine silent_cons (fun _ => lineComment_eq_none noMark) ?_
  exact silent_nil

theorem silent_trivia (silent : Silent accepted (patterns.take 7) (char :: rest))
    (noSpace : isSpace char = false) : Silent accepted (patterns.take 8) (char :: rest) :=
  silent_append silent (silent_cons (fun _ => space_eq_none noSpace) silent_nil)

theorem silent_operator (isOperator : operatorStarts.contains char = true)
    (noBody : accepted .bodyText = false) (noMark : char = '/' → Parted rest) :
    Silent accepted (patterns.take 8) (char :: rest) := by
  have plain : (operatorStarts.all fun char => decide (isFloatStart char = false ∧
      char.isDigit = false ∧ isWordStart char = false ∧ (char == '"') = false ∧
        isSpace char = false)) = true := by
    decide
  have isPlain := List.all_eq_true.mp plain char (List.contains_iff_mem.mp isOperator)
  rcases of_decide_eq_true isPlain with ⟨noFloat, noDigit, noStart, noQuote, noSpace⟩
  apply silent_trivia _ noSpace
  apply silent_comments (floatLiteral_eq_none noFloat) _ noDigit _ noQuote noMark
  · intro isBody
    exact absurd (noBody.symm.trans isBody) Bool.false_ne_true
  · intro _
    exact word_eq_none noStart

theorem silent_numbers (noFloat : isFloatStart char = false)
    (noBody : accepted .bodyText = false) :
    Silent accepted (patterns.take 3) (char :: rest) := by
  have noDigit : char.isDigit = false := (Bool.or_eq_false_iff.mp noFloat).1
  refine silent_cons (fun _ => floatLiteral_eq_none noFloat) ?_
  refine silent_cons_of_unknown noBody ?_
  refine silent_cons (fun _ => intLiteral_eq_none noDigit) ?_
  exact silent_nil

theorem silent_word (isStart : isWordStart char = true) (noBody : accepted .bodyText = false) :
    Silent accepted (patterns.take 3) (char :: rest) := by
  have noPoint : (char == '.') = false := by
    apply Bool.eq_false_iff.mpr
    intro isPoint
    rw [beq_iff_eq.mp isPoint] at isStart
    cases isStart
  apply silent_numbers _ noBody
  rw [isFloatStart, isDigit_of_isWordStart isStart, noPoint]
  rfl

/-! ## Terminals with a pattern -/

theorem split_patterns (count : Nat) {pattern : Pattern Terminal}
    (isNext : patterns[count]? = some pattern) :
    lexicon.patterns = patterns.take count ++ pattern :: patterns.drop (count + 1) := by
  rcases List.getElem?_eq_some_iff.mp isNext with ⟨inRange, rfl⟩
  rw [List.cons_getElem_drop_succ, List.take_append_drop]
  rfl

theorem read_of_reader (count : Nat) {read : List Char → Option (List Char)}
    (isNext : patterns[count]? = some ⟨some letter, read⟩)
    (silent : Silent accepted (patterns.take count) text) (isAccepted : accepted letter = true)
    (reads : read text = some word)
    (unspelled : ∀ spelling ∈ spellings, accepted spelling.terminal = true →
      spelling.text ≠ word) :
    (lexicon.restrict accepted).read text = some ⟨some letter, word⟩ :=
  read_restrict_of_unspelled _ (split_patterns count isNext) silent isAccepted reads unspelled

/-- Readers that take no spelling in full. -/
def apartReaders : List (List Char → Option (List Char)) :=
  [floatLiteral, intLiteral, stringLiteral, unaryOperator]

theorem apartReaders_apart : ∀ read ∈ apartReaders, ∀ spelling ∈ spellings,
    read spelling.text ≠ some spelling.text := by
  decide +kernel

theorem unspelled_of_reads {read : List Char → Option (List Char)} (isReader : read ∈ apartReaders)
    (reads : read (word ++ []) = some word) :
    ∀ spelling ∈ spellings, accepted spelling.terminal = true → spelling.text ≠ word := by
  rw [List.append_nil] at reads
  rintro spelling isSpelling - rfl
  exact apartReaders_apart read isReader spelling isSpelling reads

theorem read_float (isAccepted : accepted .floatLiteral = true)
    (isText : word ∈ Terminal.texts .floatLiteral) (parted : Parted rest) :
    (lexicon.restrict accepted).read (word ++ rest) = some ⟨some .floatLiteral, word⟩ :=
  read_of_reader 0 rfl silent_nil isAccepted (floatLiteral_complete isText parted)
    (unspelled_of_reads (by simp [apartReaders]) (floatLiteral_complete isText parted_nil))

theorem read_int (coherent : Coherent accepted) (isAccepted : accepted .intLiteral = true)
    (isText : word ∈ Terminal.texts .intLiteral) (parted : Parted rest) :
    (lexicon.restrict accepted).read (word ++ rest) = some ⟨some .intLiteral, word⟩ := by
  have noBody := coherent.noBody isAccepted (by decide)
  have silent : Silent accepted (patterns.take 2) (word ++ rest) := by
    refine silent_cons (fun _ => floatLiteral_of_int isText parted) ?_
    refine silent_cons_of_unknown noBody ?_
    exact silent_nil
  exact read_of_reader 2 rfl silent isAccepted (intLiteral_complete isText parted)
    (unspelled_of_reads (by simp [apartReaders]) (intLiteral_complete isText parted_nil))

theorem read_identifier (coherent : Coherent accepted) (isAccepted : accepted .identifier = true)
    (isText : word ∈ Terminal.texts .identifier)
    (unspelled : ∀ spelling ∈ spellings, spelling.text ≠ word) (parted : Parted rest) :
    (lexicon.restrict accepted).read (word ++ rest) = some ⟨some .identifier, word⟩ := by
  have noBody := coherent.noBody isAccepted (by decide)
  have reads := word_complete isText parted
  have silent : Silent accepted (patterns.take 3) (word ++ rest) := by
    rcases Language.mem_mul.mp isText with ⟨_, ⟨char, isStart, rfl⟩, others, -, rfl⟩
    exact silent_word isStart noBody
  exact read_of_reader 3 rfl silent isAccepted reads
    fun spelling isSpelling _ => unspelled spelling isSpelling

theorem read_string (coherent : Coherent accepted) (isAccepted : accepted .stringLiteral = true)
    (isText : word ∈ Terminal.texts .stringLiteral) :
    (lexicon.restrict accepted).read (word ++ rest) = some ⟨some .stringLiteral, word⟩ := by
  have noBody := coherent.noBody isAccepted (by decide)
  have silent : Silent accepted (patterns.take 4) (word ++ rest) := by
    rcases beginsWith_string word isText with ⟨char, isHead, isQuote⟩
    rcases List.head?_eq_some_iff.mp isHead with ⟨others, rfl⟩
    cases beq_iff_eq.mp isQuote
    have noNumber : Silent accepted (patterns.take 3) ('"' :: others ++ rest) :=
      silent_numbers (by decide) noBody
    have noWord : Lexeme.word ('"' :: others ++ rest) = none := word_eq_none (by decide)
    exact silent_append noNumber (silent_cons (fun _ => noWord) silent_nil)
  exact read_of_reader 4 rfl silent isAccepted (stringLiteral_complete isText)
    (unspelled_of_reads (by simp [apartReaders]) (stringLiteral_complete isText))

theorem read_body (coherent : Coherent accepted) (isAccepted : accepted .bodyText = true)
    (isText : word ∈ Terminal.texts .bodyText) (braced : Braced rest) :
    (lexicon.restrict accepted).read (word ++ rest) = some ⟨some .bodyText, word⟩ := by
  have apart : ∀ spelling ∈ spellings,
      spelling.terminal ∈ [Terminal.bodyText, .leftBrace, .rightBrace] →
        bodyText spelling.text ≠ some spelling.text := by
    decide +kernel
  have noRest : Braced [] := by simp [Braced]
  have alone := bodyText_complete isText noRest
  rw [List.append_nil] at alone
  have silent : Silent accepted (patterns.take 1) (word ++ rest) := by
    apply silent_cons _ silent_nil
    intro isKnown
    have isBody := coherent.body isAccepted .floatLiteral isKnown
    simp at isBody
  refine read_of_reader 1 rfl silent isAccepted (bodyText_complete isText braced) ?_
  rintro spelling isSpelling isKnown rfl
  exact apart spelling isSpelling (coherent.body isAccepted _ isKnown) alone

/-- An operator that could also close a list of template arguments is read as that. -/
theorem read_binary (coherent : Coherent accepted) (isAccepted : accepted .binaryOperator = true)
    (isText : word ∈ Terminal.texts .binaryOperator) (parted : Parted rest)
    (noClose : word = ['>'] → accepted .greater = false) :
    (lexicon.restrict accepted).read (word ++ rest) = some ⟨some .binaryOperator, word⟩ := by
  have apart : ∀ spelling ∈ spellings, binaryOperator spelling.text = some spelling.text →
      spelling.terminal = .less ∨ spelling.terminal = .greater ∧ spelling.text = ['>'] := by
    decide +kernel
  have alone := binaryOperator_complete isText parted_nil
  rw [List.append_nil] at alone
  have noBody := coherent.noBody isAccepted (by decide)
  have slash : ∀ word ∈ binaryOperators.map String.toList, ['/'] <+: word → word = ['/'] := by
    decide
  have silent : Silent accepted (patterns.take 8) (word ++ rest) := by
    rcases beginsWith_binary word isText with ⟨char, isHead, isOperator⟩
    rcases List.head?_eq_some_iff.mp isHead with ⟨others, rfl⟩
    rw [List.cons_append]
    apply silent_operator isOperator noBody
    rintro rfl
    cases slash _ isText ⟨others, rfl⟩
    exact parted
  refine read_of_reader 8 rfl silent isAccepted (binaryOperator_complete isText parted) ?_
  rintro spelling isSpelling isKnown rfl
  rcases apart spelling isSpelling alone with isLess | ⟨isGreater, isClose⟩
  · rw [isLess, (coherent.operator isAccepted).2] at isKnown
    cases isKnown
  · rw [isGreater, noClose isClose] at isKnown
    cases isKnown

theorem read_unary (coherent : Coherent accepted) (isAccepted : accepted .unaryOperator = true)
    (isText : word ∈ Terminal.texts .unaryOperator) :
    (lexicon.restrict accepted).read (word ++ rest) = some ⟨some .unaryOperator, word⟩ := by
  have noBody := coherent.noBody isAccepted (by decide)
  have noBinary : accepted .binaryOperator = false := by
    apply Bool.eq_false_iff.mpr
    intro isBinary
    rw [(coherent.operator isBinary).1] at isAccepted
    cases isAccepted
  have silent : Silent accepted (patterns.take 9) (word ++ rest) := by
    rcases beginsWith_unary word isText with ⟨char, isHead, isUnary⟩
    rcases List.head?_eq_some_iff.mp isHead with ⟨others, rfl⟩
    have starts : (Lexeme.unaryOperators.all fun char =>
        decide (operatorStarts.contains char = true ∧ char ≠ '/')) = true := by
      decide
    have isOperator := List.all_eq_true.mp starts char (List.contains_iff_mem.mp isUnary)
    rcases of_decide_eq_true isOperator with ⟨isStart, notSlash⟩
    have silent : Silent accepted (patterns.take 8) (char :: others ++ rest) :=
      silent_operator isStart noBody fun isSlash => absurd isSlash notSlash
    exact silent_append silent (silent_cons_of_unknown noBinary silent_nil)
  exact read_of_reader 9 rfl silent isAccepted (unaryOperator_complete isText)
    (unspelled_of_reads (by simp [apartReaders]) (unaryOperator_complete isText))

/-! ## Terminals with spellings -/

/-- The spellings with their first characters. -/
def starts : List (Spelling Terminal × Char) :=
  spellings.filterMap fun spelling => spelling.text.head?.map (spelling, ·)

theorem mem_starts {spelling : Spelling Terminal} (isSpelling : spelling ∈ spellings)
    (isHead : char ∈ spelling.text.head?) : (spelling, char) ∈ starts :=
  List.mem_filterMap.mpr ⟨spelling, isSpelling, Option.map_eq_some_iff.mpr ⟨char, isHead, rfl⟩⟩

theorem starts_plain : ∀ start ∈ starts,
    start.2.isDigit = false ∧ (start.2 == '"') = false ∧ start.2 ≠ '/' ∧
      isSpace start.2 = false ∧ (start.2 = '.' → start.1.text = ['.']) ∧
      (operatorStarts.contains start.2 = true →
        start.1.text = ['='] ∨ start.1.terminal ∈ [Terminal.arrow, .less, .greater]) ∧
      (Lexeme.unaryOperators.contains start.2 = true → start.1.terminal = .arrow) ∧
      (start.1.terminal ∈ [Terminal.bodyText, .leftBrace, .rightBrace] →
        start.2 = '\x7b' ∨ start.2 = '\x7d') := by
  decide +kernel

theorem starts_word : ∀ start ∈ starts, isWordStart start.2 = true →
    Lexeme.word start.1.text = some start.1.text := by
  decide +kernel

theorem spelling_unique {spelling other : Spelling Terminal} (isSpelling : spelling ∈ spellings)
    (isOther : other ∈ spellings) (sameText : other.text = spelling.text) : other = spelling := by
  have distinct : (fixedSpellings.map Prod.fst ++ typeNames).Nodup := by
    decide +kernel
  have texts : spellings.map Spelling.text =
      (fixedSpellings.map Prod.fst ++ typeNames).map String.toList := by
    simp only [spellings, List.map_append, List.map_map, Function.comp_def]
  apply List.inj_on_of_nodup_map _ isOther isSpelling sameText
  rw [texts]
  exact distinct.map fun _ _ => String.toList_injective

/-- Of two spellings the longer one comes first, type names apart. -/
def InOrder (earlier later : Spelling Terminal) : Prop :=
  later.terminal = .typeName ∨ ¬ earlier.text <+: later.text

instance : DecidableRel InOrder := fun _ _ => inferInstanceAs (Decidable (_ ∨ _))

theorem spellings_inOrder : spellings.Pairwise InOrder := by
  decide +kernel

theorem noSpace_of_all (noSpaces : word.all (!isSpace ·) = true) :
    ∀ char ∈ word, isSpace char = false := by
  intro char isChar
  simpa using List.all_eq_true.mp noSpaces char isChar

theorem spelling_noSpaces : ∀ spelling ∈ spellings, ∀ char ∈ spelling.text,
    isSpace char = false := by
  have noSpaces : ∀ spelling ∈ spellings, spelling.text.all (!isSpace ·) = true := by
    decide +kernel
  intro spelling isSpelling
  exact noSpace_of_all (noSpaces spelling isSpelling)

/-- A spelling does not reach into what stands behind a space. -/
theorem prefix_of_prefix_append {spelling : Spelling Terminal} (isSpelling : spelling ∈ spellings)
    (parted : Parted rest) (inFront : spelling.text <+: word ++ rest) : spelling.text <+: word := by
  rcases List.prefix_or_prefix_of_prefix inFront (List.prefix_append word rest) with
    isPrefix | ⟨more, isMore⟩
  · exact isPrefix
  · cases more with
    | nil =>
        rw [← isMore, List.append_nil]
    | cons char more =>
        rw [← isMore, List.prefix_append_right_inj] at inFront
        rcases inFront with ⟨others, rfl⟩
        have isBlank : char = ' ' := parted char rfl
        have noSpace := spelling_noSpaces spelling isSpelling char (by simp [← isMore])
        rw [isBlank] at noSpace
        cases noSpace

/-- At a spelling no pattern reads anything, reserved words and `>` apart. -/
theorem silent_spelling {spelling : Spelling Terminal} (coherent : Coherent accepted)
    (isSpelling : spelling ∈ spellings) (isAccepted : accepted spelling.terminal = true)
    (parted : Parted rest)
    (noWord : accepted .identifier = true → ∀ char ∈ spelling.text.head?, isWordStart char = false)
    (noOperator : accepted .binaryOperator = true → spelling.terminal ≠ .greater) :
    Silent accepted patterns (spelling.text ++ rest) := by
  rcases spelling with ⟨_ | ⟨char, others⟩, letter⟩
  · exact absurd rfl (spellings_ne_nil _ isSpelling)
  rcases starts_plain _ (mem_starts isSpelling rfl) with
    ⟨noDigit, noQuote, noSlash, noSpace, point, operator, unary, brace⟩
  have first : Silent accepted (patterns.take 8) (char :: (others ++ rest)) := by
    apply silent_trivia _ noSpace
    apply silent_comments _ _ noDigit _ noQuote fun isSlash => absurd isSlash noSlash
    · by_cases isPoint : char = '.'
      · subst isPoint
        cases point rfl
        exact floatLiteral_point parted
      · apply floatLiteral_eq_none
        simp [isFloatStart, noDigit, isPoint]
    · intro isBody
      exact bodyText_brace (brace (coherent.body isBody letter isAccepted))
    · intro isWord
      exact word_eq_none (noWord isWord char rfl)
  have noBinary : accepted .binaryOperator = true →
      binaryOperator (char :: (others ++ rest)) = none := by
    intro isBinary
    cases isStart : operatorStarts.contains char with
    | false => exact binaryOperator_eq_none isStart
    | true =>
        rcases operator isStart with isEqual | isOther
        · cases isEqual
          exact binaryOperator_equal parted
        · exfalso
          simp only [List.mem_cons, List.not_mem_nil, or_false] at isOther
          rcases isOther with rfl | rfl | rfl
          · have isArrow := coherent.arrow isAccepted _ isBinary
            simp at isArrow
          · rw [(coherent.operator isBinary).2] at isAccepted
            cases isAccepted
          · exact noOperator isBinary rfl
  have noUnary : accepted .unaryOperator = true →
      unaryOperator (char :: (others ++ rest)) = none := by
    intro isUnary
    cases isStart : Lexeme.unaryOperators.contains char with
    | false => exact unaryOperator_eq_none isStart
    | true =>
        cases unary isStart
        have isArrow := coherent.arrow isAccepted _ isUnary
        simp at isArrow
  exact silent_append first
    (silent_cons (fun isKnown => noBinary isKnown) (silent_cons (fun isKnown => noUnary isKnown)
      silent_nil))

/-- Where words are acceptable, a spelling that is a word is read as a reserved word. -/
theorem read_reserved {spelling : Spelling Terminal} (coherent : Coherent accepted)
    (isSpelling : spelling ∈ spellings) (isAccepted : accepted spelling.terminal = true)
    (isIdentifier : accepted .identifier = true) (parted : Parted rest)
    (isWord : ∃ char ∈ spelling.text.head?, isWordStart char = true) :
    (lexicon.restrict accepted).read (spelling.text ++ rest) =
      some ⟨some spelling.terminal, spelling.text⟩ := by
  rcases isWord with ⟨char, isHead, isStart⟩
  have noBody := coherent.noBody isIdentifier (by decide)
  have isText := (word_sound (starts_word _ (mem_starts isSpelling isHead) isStart)).2
  have reads := word_complete isText parted
  have silent : Silent accepted (patterns.take 3) (spelling.text ++ rest) := by
    rcases List.head?_eq_some_iff.mp isHead with ⟨others, isFirst⟩
    rw [isFirst]
    exact silent_word isStart noBody
  refine read_restrict_of_spelled _ (split_patterns 3 rfl) silent isIdentifier reads
    isSpelling isAccepted ?_
  intro other isOther sameText
  rw [spelling_unique isSpelling isOther sameText]

theorem greater_mem_spellings : ⟨['>'], .greater⟩ ∈ spellings :=
  mem_spellings_of_fixed (by simp [fixedSpellings] : (">", Terminal.greater) ∈ fixedSpellings)

/-- Where operators are acceptable, `>` is read as an operator but is not taken as one. -/
theorem read_greater (coherent : Coherent accepted) (isBinary : accepted .binaryOperator = true)
    (isAccepted : accepted .greater = true) (parted : Parted rest) :
    (lexicon.restrict accepted).read ('>' :: rest) = some ⟨some .greater, ['>']⟩ := by
  have noBody := coherent.noBody isBinary (by decide)
  have reads : binaryOperator (['>'] ++ rest) = some ['>'] :=
    binaryOperator_complete (by decide : ['>'] ∈ binaryOperators.map String.toList) parted
  have silent : Silent accepted (patterns.take 8) ('>' :: rest) :=
    silent_operator (by decide) noBody fun isSlash => absurd isSlash (by decide)
  refine read_restrict_of_spelled _ (split_patterns 8 rfl) silent isBinary reads
    greater_mem_spellings isAccepted ?_
  intro other isOther sameText
  rw [spelling_unique greater_mem_spellings isOther sameText]

theorem read_spelling {spelling : Spelling Terminal} (coherent : Coherent accepted)
    (isSpelling : spelling ∈ spellings) (isAccepted : accepted spelling.terminal = true)
    (parted : Parted rest) :
    (lexicon.restrict accepted).read (spelling.text ++ rest) =
      some ⟨some spelling.terminal, spelling.text⟩ := by
  by_cases isReserved : accepted .identifier = true ∧
      ∃ char ∈ spelling.text.head?, isWordStart char = true
  · exact read_reserved coherent isSpelling isAccepted isReserved.1 parted isReserved.2
  by_cases isClosing : accepted .binaryOperator = true ∧ spelling.terminal = .greater
  · rcases spelling with ⟨text, letter⟩
    rcases isClosing with ⟨isBinary, rfl⟩
    have isClose : text = ['>'] :=
      eq_of_mem_texts ">" (by simp [fixedSpellings]) (mem_texts_of_mem_spellings isSpelling)
    subst isClose
    exact read_greater coherent isBinary isAccepted parted
  have noWord : accepted .identifier = true → ∀ char ∈ spelling.text.head?,
      isWordStart char = false := by
    intro isIdentifier char isHead
    apply Bool.eq_false_iff.mpr
    intro isStart
    exact isReserved ⟨isIdentifier, char, isHead, isStart⟩
  have noOperator : accepted .binaryOperator = true → spelling.terminal ≠ .greater :=
    fun isBinary isGreater => isClosing ⟨isBinary, isGreater⟩
  have alone := silent_spelling coherent isSpelling isAccepted parted_nil noWord noOperator
  rw [List.append_nil] at alone
  apply read_restrict_of_spelling isSpelling isAccepted
    (silent_spelling coherent isSpelling isAccepted parted noWord noOperator) alone
    (List.prefix_append _ _) spellings_inOrder
  intro other isOther _ inFront
  rintro (isType | notPrefix)
  · -- Where a type name is acceptable, words are; then it is a reserved word.
    have isTypeName : ∀ spelling ∈ spellings, spelling.terminal = .typeName →
        spelling.text.head?.any isWordStart = true := by
      decide +kernel
    exact isReserved ⟨coherent.typeName (isType ▸ isAccepted),
      (Option.any_eq_true _ _).mp (isTypeName _ isSpelling isType)⟩
  · exact notPrefix (prefix_of_prefix_append isOther parted inFront)

/-! ## All terminals -/

/-- A text of an acceptable terminal is read as that terminal, if what stands behind it sets it
apart. The exceptions are identifiers that are spelled like another terminal, and the operator `>`
where it is acceptable as the end of a list. -/
theorem read_of_mem_texts (coherent : Coherent accepted) (isAccepted : accepted letter = true)
    (isText : word ∈ letter.texts) (parted : letter ≠ .bodyText → Parted rest)
    (braced : letter = .bodyText → Braced rest)
    (unspelled : letter = .identifier → ∀ spelling ∈ spellings, spelling.text ≠ word)
    (noClose : letter = .binaryOperator → word = ['>'] → accepted .greater = false) :
    (lexicon.restrict accepted).read (word ++ rest) = some ⟨some letter, word⟩ := by
  cases letter
  case floatLiteral => exact read_float isAccepted isText (parted nofun)
  case intLiteral => exact read_int coherent isAccepted isText (parted nofun)
  case identifier =>
    exact read_identifier coherent isAccepted isText (unspelled rfl) (parted nofun)
  case stringLiteral => exact read_string coherent isAccepted isText
  case bodyText => exact read_body coherent isAccepted isText (braced rfl)
  case binaryOperator =>
    exact read_binary coherent isAccepted isText (parted nofun) (noClose rfl)
  case unaryOperator => exact read_unary coherent isAccepted isText
  all_goals exact read_spelling coherent isText isAccepted (parted nofun)

/-- Where `>` is read as an operator, it is not acceptable as the end of a list. -/
theorem not_accepted_of_read
    (reads : (lexicon.restrict accepted).read text = some ⟨some .binaryOperator, ['>']⟩) :
    accepted .greater = false := by
  have noOperator : ∀ spelling ∈ spellings, spelling.terminal ≠ .binaryOperator := by
    decide +kernel
  rcases read_eq_some reads with isOperator | ⟨pattern, -, -, -, unspelled⟩
  · exact absurd rfl (noOperator _ (List.mem_filter.mp isOperator).1)
  · apply Bool.eq_false_iff.mpr
    intro isAccepted
    exact unspelled _ (List.mem_filter.mpr ⟨greater_mem_spellings, isAccepted⟩) rfl

theorem read_space (noSpace : Stops isSpace rest) :
    (lexicon.restrict accepted).read (' ' :: rest) = some ⟨none, [' ']⟩ := by
  have apart : ∀ spelling ∈ spellings, spelling.text ≠ [' '] := by
    intro spelling isSpelling isBlank
    cases spelling_noSpaces spelling isSpelling ' ' (by simp [isBlank])
  have silent : Silent accepted (patterns.take 7) (' ' :: rest) :=
    silent_comments (floatLiteral_eq_none rfl) (fun _ => rfl) rfl (fun _ => rfl) rfl nofun
  exact read_restrict_of_unspelled _ (split_patterns 7 rfl) silent rfl (space_single noSpace)
    fun spelling isSpelling _ => apart spelling isSpelling

theorem BeginsWith.stops_isSpace {texts : Texts} {isFirst : Char → Bool}
    (begins : BeginsWith texts isFirst)
    (apart : [' ', '\t', '\x0c', '\r', '\n'].all (!isFirst ·) = true)
    (isText : word ∈ texts) : Stops isSpace (word ++ rest) := by
  rcases begins word isText with ⟨char, isHead, isClass⟩
  rcases List.head?_eq_some_iff.mp isHead with ⟨others, rfl⟩
  have notListed := contains_eq_false isClass apart
  apply stops_cons
  simpa [isSpace, and_assoc] using notListed

theorem beginsWith_spelling :
    BeginsWith {text | ∃ letter, ⟨text, letter⟩ ∈ spellings} (!isSpace ·) := by
  rintro word ⟨letter, isSpelling⟩
  cases word with
  | nil => exact absurd rfl (spellings_ne_nil _ isSpelling)
  | cons char others =>
      have noSpace := (starts_plain _ (mem_starts isSpelling rfl)).2.2.2.1
      exact ⟨char, rfl, by simp [noSpace]⟩

theorem beginsWith_body : BeginsWith (Terminal.texts .bodyText) (!isBlank ·) := by
  rintro word ⟨⟨char, isFirst, notBlank⟩, -, -, -⟩
  exact ⟨char, isFirst, by simp [notBlank]⟩

/-- No terminal is written with a space in front. -/
theorem stops_isSpace (isText : word ∈ letter.texts) : Stops isSpace (word ++ rest) := by
  cases letter
  case floatLiteral => exact beginsWith_float.stops_isSpace (by decide) isText
  case intLiteral => exact beginsWith_int.stops_isSpace (by decide) isText
  case identifier => exact beginsWith_identifier.stops_isSpace (by decide) isText
  case stringLiteral => exact beginsWith_string.stops_isSpace (by decide) isText
  case bodyText => exact beginsWith_body.stops_isSpace (by decide) isText
  case binaryOperator => exact beginsWith_binary.stops_isSpace (by decide) isText
  case unaryOperator => exact beginsWith_unary.stops_isSpace (by decide) isText
  all_goals exact beginsWith_spelling.stops_isSpace (by decide) ⟨_, isText⟩

end ShaderReflection.Wgsl.Lexeme
